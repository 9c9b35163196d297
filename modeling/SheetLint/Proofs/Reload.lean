import SheetLint.Proofs.Accounting
import SheetLint.Proofs.Obstacle

/-!
# Loading what was found

A file is found under the path of a walk and loaded under the path that was shown for it. Where all
names are texts the two are the same path, and a walk that went to its end leaves a path that can be
looked up for every file it lists. Only the length of the path is left to ask for, since a file is
listed without being looked up.
-/

namespace SheetLint

open Text

namespace Path

theorem encode_intercalate (sep : List Char) (parts : List (List Char)) :
    encode (sep.intercalate parts) = (encode sep).intercalate (parts.map encode) := by
  induction parts with
  | nil => rfl
  | cons part parts ih =>
    cases parts with
    | nil => simp
    | cons next parts =>
      rw [List.intercalate_cons_cons, encode_append, encode_append, ih]
      simp

theorem bytesOf_render {chain : List Name} (htext : ∀ name ∈ chain, ∃ cs, name = encode cs) :
    bytesOf (render chain) = [slash].intercalate chain := by
  have hslash : encode ['/'] = [slash] := by decide
  rw [bytesOf, toList_render, encode_intercalate, map_encode_decodeLossy htext, hslash]

theorem isAbsolute_append {name : Name} (hname : name.Proper) (rest : Path) :
    isAbsolute (name ++ rest) = false := by
  have hname' := Volume.isAbsolute_of_proper hname
  obtain ⟨b, name, rfl⟩ := List.exists_cons_of_ne_nil hname.nonempty
  exact hname'

theorem isAbsolute_intercalate {names : List Name} (hproper : ∀ name ∈ names, name.Proper) :
    isAbsolute ([slash].intercalate names) = false := by
  cases names with
  | nil => rfl
  | cons name names =>
    have hname := hproper name List.mem_cons_self
    cases names with
    | nil => simpa using Volume.isAbsolute_of_proper hname
    | cons next names =>
      rw [List.intercalate_cons_cons, List.append_assoc]
      exact isAbsolute_append hname _

/-- What is put behind a path with a name in front is put behind the path of the name. -/
theorem join_append (path : Path) {name : Name} (hname : name.Proper) {rest : Path}
    (hrest : isAbsolute rest = false) :
    path.join (name ++ slash :: rest) = (path.join name).join rest := by
  have hfront : ∃ front, path.join name = front ++ name ∧
      path.join (name ++ slash :: rest) = front ++ (name ++ slash :: rest) := by
    rw [join, join, Volume.isAbsolute_of_proper hname, isAbsolute_append hname]
    simp only [Bool.false_eq_true, if_false]
    split
    · exact ⟨path, rfl, rfl⟩
    · exact ⟨path ++ [slash], by simp, by simp⟩
  obtain ⟨front, hname', hall⟩ := hfront
  have hlast : (front ++ name).getLast? ≠ some slash := by
    rw [List.getLast?_append_of_ne_nil _ hname.nonempty]
    exact fun h => hname.no_slash (List.mem_of_getLast? h)
  have hne : front ++ name ≠ [] := by simp [hname.nonempty]
  rw [hname', hall, join, hrest, if_neg Bool.false_ne_true, if_neg (not_or.mpr ⟨hne, hlast⟩),
    List.append_assoc]

/-- Names with slashes between them are put behind a path one by one. -/
theorem join_intercalate (path : Path) {names : List Name} (hne : names ≠ [])
    (hproper : ∀ name ∈ names, name.Proper) :
    path.join ([slash].intercalate names) = names.foldl join path := by
  induction names generalizing path with
  | nil => exact absurd rfl hne
  | cons name names ih =>
    obtain ⟨hname, hnames⟩ := List.forall_mem_cons.mp hproper
    cases names with
    | nil => simp
    | cons next names =>
      rw [List.intercalate_cons_cons, List.append_assoc, List.singleton_append,
        join_append path hname (isAbsolute_intercalate hnames), ih _ (by simp) hnames]
      rfl

end Path

namespace Volume

/-- The names lead from the directory at a place to a file with the content. -/
def Holds (v : Volume) (place : Place) (chain : List Name) (content : Bytes) : Prop :=
  ∃ target, v.Leads place chain target ∧ v.at? target = some (.file content)

theorem Holds.unique {v : Volume} {place : Place} {chain : List Name} {content content' : Bytes}
    (h : v.Holds place chain content) (h' : v.Holds place chain content') : content = content' := by
  obtain ⟨target, hleads, hfile⟩ := h
  obtain ⟨target', hleads', hfile'⟩ := h'
  cases hleads.unique hleads'
  rw [hfile] at hfile'
  cases hfile'
  rfl

end Volume

namespace Scope

variable {scope : Scope} {here : Visit} {above : List Visit} {name : Name} {root place : Place}

/-- The names are texts, and the path that is shown for them can be looked up below the root. -/
structure Addressable (scope : Scope) (chain : List Name) : Prop where
  text : ∀ name ∈ chain, ∃ cs, name = encode cs
  short : (scope.root.join (bytesOf (Path.render chain))).length ≤ Path.maxLength

theorem join_render {chain : List Name} (hne : chain ≠ []) (hproper : ∀ name ∈ chain, name.Proper)
    (htext : ∀ name ∈ chain, ∃ cs, name = encode cs) :
    scope.root.join (bytesOf (Path.render chain)) = scope.pathOf chain.reverse := by
  rw [Path.bytesOf_render htext, Path.join_intercalate _ hne hproper, pathOf, Path.descend,
    List.foldr_reverse]

/-- If nothing is in the way, an entry of a directory that a look-up finds is found by one, unless
its path is too long. -/
theorem reaches_of_opens
    (hhere : scope.volume.Reaches scope.base (scope.pathOf here.trail) here.place)
    (hstands : scope.Stands here) (opens : scope.volume.Opens here.place name place)
    (hclear : ¬ scope.BadLink here above name)
    (hshort : (scope.pathOf (name :: here.trail)).length ≤ Path.maxLength) :
    scope.volume.Reaches scope.base (scope.pathOf (name :: here.trail)) place := by
  cases opens with
  | itself found real => exact hhere.entry found real hshort
  | through found followed =>
    obtain ⟨target, hreaches⟩ : ∃ target,
        scope.volume.Reaches scope.base (scope.pathOf (name :: here.trail)) target := by
      by_contra hlost
      exact hclear (.lost found (not_exists.mp hlost))
    obtain ⟨-, -, -, links, -, hleads⟩ := id hreaches
    have hlast := (hstands.leads_iff (Volume.proper_of_at? found)).mp hleads.leads
    cases hlast.unique (Volume.Opens.through found followed).leads
    exact hreaches

/-- If there is no obstacle, the files below the root are found by look-ups. The induction goes down
from directory to directory and keeps that a look-up finds the directory. -/
theorem reaches_of_below {chain : List Name} (hroot : scope.Stands ⟨root, []⟩)
    (hclear : ¬ scope.Obstructed root) (h : scope.volume.Below place chain)
    (hchain : scope.Chain root (here :: above)) (hplace : here.place = place)
    (hexposed : here.Exposed)
    (hhere : scope.volume.Reaches scope.base (scope.pathOf here.trail) here.place)
    (hshort : (scope.pathOf (chain.reverse ++ here.trail)).length ≤ Path.maxLength) :
    ∃ target content, scope.volume.Leads place chain target ∧
      scope.volume.at? target = some (.file content) ∧
      scope.volume.Reaches scope.base (scope.pathOf (chain.reverse ++ here.trail)) target := by
  have hobstacle : ∀ {here above name}, scope.Chain root (here :: above) → here.Exposed →
      ¬ scope.Obstacle here above name :=
    fun hchain hexposed h => hclear ⟨_, _, _, hchain, hexposed, h⟩
  induction h generalizing here above with
  | @file place target name content opens regular =>
    cases hplace
    have hreaches := reaches_of_opens hhere (hchain.stands hroot _ List.mem_cons_self) opens
      (fun bad => hobstacle hchain hexposed (.link bad)) hshort
    exact ⟨target, content, opens.leads, regular, hreaches⟩
  | @inside place target name chain opens directory entered _ ih =>
    cases hplace
    have hnext : (scope.pathOf (name :: here.trail)).length ≤ Path.maxLength :=
      Nat.not_lt.mp fun long =>
        hobstacle hchain hexposed (.depth opens directory entered long)
    have hreaches := reaches_of_opens hhere (hchain.stands hroot _ List.mem_cons_self) opens
      (fun bad => hobstacle hchain hexposed (.link bad)) hnext
    have htrail : (name :: chain).reverse ++ here.trail =
        chain.reverse ++ (name :: here.trail) := by
      simp
    rw [htrail] at hshort ⊢
    have hinside : scope.Chain root (⟨target, name :: here.trail⟩ :: here :: above) :=
      .enter hchain opens directory
    obtain ⟨last, content, hleads, regular, hlast⟩ :=
      ih hinside rfl (List.forall_mem_cons.mpr ⟨entered, hexposed⟩) hreaches hshort
    exact ⟨last, content, opens.leads.append hleads, regular, hlast⟩

theorem nul_not_mem_pathOf {trail : List Name} (hroot : 0 ∉ scope.root)
    (hproper : ∀ name ∈ trail, name.Proper) : 0 ∉ scope.pathOf trail := by
  induction trail with
  | nil => exact hroot
  | cons name trail ih =>
    obtain ⟨hname, htrail⟩ := List.forall_mem_cons.mp hproper
    exact Volume.nul_not_mem_join (ih htrail) hname

section Root

variable {ext : String} {listed : List String} {chain : List Name}
  (hroot : scope.volume.Reaches scope.base scope.root root)
  (hdirectory : scope.volume.at? root = some .directory)

include hroot

theorem load_of_long (h : scope.volume.Below root chain)
    (htext : ∀ name ∈ chain, ∃ cs, name = encode cs)
    (hlong : Path.maxLength < (scope.root.join (bytesOf (Path.render chain))).length) :
    scope.load (Path.render chain) = .error (.os .nameTooLong) := by
  have hproper : ∀ name ∈ chain.reverse, name.Proper := by simpa using h.proper
  have hnul := nul_not_mem_pathOf hroot.no_nul hproper
  rw [← join_render h.names.1 h.proper htext] at hnul
  rw [load, Volume.read, Volume.find_of_long hnul hlong]
  rfl

include hdirectory

theorem load_of_addressable (hclear : ¬ scope.Obstructed root) (h : scope.volume.Below root chain)
    (haddr : scope.Addressable chain) : ∃ content, scope.volume.Holds root chain content ∧
      scope.load (Path.render chain) = .ok (shown content) := by
  have hjoin : scope.root.join (bytesOf (Path.render chain)) = scope.pathOf chain.reverse :=
    join_render h.names.1 h.proper haddr.text
  have hshort := haddr.short
  rw [hjoin, ← List.append_nil chain.reverse] at hshort
  have hstart : scope.Chain root [⟨root, []⟩] := .root
  obtain ⟨target, content, hleads, regular, hreaches⟩ :=
    reaches_of_below (stands_of_reaches hroot hdirectory) hclear h hstart rfl
      (by simp [Visit.Exposed]) hroot hshort
  rw [List.append_nil, ← hjoin] at hreaches
  refine ⟨content, ⟨target, hleads, regular⟩, ?_⟩
  rw [load, Volume.read_of_reaches hreaches regular]
  rfl

theorem mem_listed_iff (h : scope.stylesheets ext = .ok listed) {path : String} :
    path ∈ listed ↔ ∃ chain, scope.volume.IsStylesheet root (bytesOf ext) chain ∧
      path = Path.render chain := by
  obtain ⟨-, -, -, links, -, hleads⟩ := id hroot
  obtain ⟨chains, -, hmem, hperm⟩ := stylesheets_perm hleads.leads hdirectory h
  rw [hperm.mem_iff, List.mem_map]
  constructor
  · rintro ⟨chain, hchain, rfl⟩
    exact ⟨chain, (hmem chain).mp hchain, rfl⟩
  · rintro ⟨chain, hchain, rfl⟩
    exact ⟨chain, (hmem chain).mpr hchain, rfl⟩

theorem not_obstructed_of_stylesheets (h : scope.stylesheets ext = .ok listed) :
    ¬ scope.Obstructed root := by
  obtain ⟨trails, hfiles, -⟩ := eq_ok_of_map h
  rw [← files_eq_error_iff hroot hdirectory, hfiles]
  rintro ⟨error, herror⟩
  cases herror

end Root

/-- What is listed can be loaded, and is what is at the end of the names that are shown, if these
are texts and the path is not too long. A run skips no such file, and what it reports under its path
is found in its own content. -/
theorem load_listed (scope : Scope) (ext : String) {root : Place} {listed : List String}
    (hroot : scope.volume.Reaches scope.base scope.root root)
    (hdirectory : scope.volume.at? root = some .directory)
    (h : scope.stylesheets ext = .ok listed) :
    (∀ path, path ∈ listed ↔ ∃ chain, scope.volume.IsStylesheet root (bytesOf ext) chain ∧
      path = Path.render chain) ∧
    (∀ chain, scope.volume.IsStylesheet root (bytesOf ext) chain → scope.Addressable chain →
      ∃ content, scope.volume.Holds root chain content ∧
        scope.load (Path.render chain) = .ok (shown content)) ∧
    (∀ chain, scope.volume.IsStylesheet root (bytesOf ext) chain →
      (∀ name ∈ chain, ∃ cs, name = encode cs) →
      Path.maxLength < (scope.root.join (bytesOf (Path.render chain))).length →
      scope.load (Path.render chain) = .error (.os .nameTooLong)) ∧
    ∃ run, (⟨scope.root, ext⟩ : Config).run scope.volume scope.base = .ok run ∧
      (∀ file ∈ run.report.skipped, ∃ chain, scope.volume.IsStylesheet root (bytesOf ext) chain ∧
        file.path = Path.render chain ∧ ¬ scope.Addressable chain) ∧
      (∀ path violations, run.report.files.find? path = some violations → path ∈ listed) ∧
      ∀ chain content, scope.volume.IsStylesheet root (bytesOf ext) chain →
        scope.Addressable chain → scope.volume.Holds root chain content → ∀ violations,
        (run.report.files.find? (Path.render chain) = some violations ↔ violations ≠ [] ∧
          ∃ role, Role.ofPath? (Path.render chain) ext = some role ∧
            lintContent (shown content) role (baseName (Path.render chain) ext) = violations) := by
  have hclear := not_obstructed_of_stylesheets hroot hdirectory h
  have hmem : ∀ {path}, path ∈ listed ↔ ∃ chain,
      scope.volume.IsStylesheet root (bytesOf ext) chain ∧ path = Path.render chain :=
    mem_listed_iff hroot hdirectory h
  have hload : ∀ chain, scope.volume.IsStylesheet root (bytesOf ext) chain →
      scope.Addressable chain → ∃ content, scope.volume.Holds root chain content ∧
        scope.load (Path.render chain) = .ok (shown content) :=
    fun chain hsheet haddr => load_of_addressable hroot hdirectory hclear hsheet.1 haddr
  have hpaths : (scope.source ext).paths = .ok listed := by rw [source, h]; rfl
  have account := Source.accounts_ofOutcomes (scope.source ext) ext listed
  refine ⟨fun path => hmem, hload, fun chain hsheet => load_of_long hroot hsheet.1, _,
    (run_eq_run hroot hdirectory ext).trans (Source.run_of_paths hpaths ⟨scope.root, ext⟩), ?_, ?_,
    ?_⟩
  · intro file hfile
    rw [account.skipped] at hfile
    obtain ⟨path, hpath, hskipped⟩ := List.mem_filterMap.mp hfile
    obtain ⟨hfile, failure, hfailure⟩ := Source.load_of_skippedFile? hskipped
    obtain ⟨chain, hsheet, rfl⟩ := hmem.mp hpath
    refine ⟨chain, hsheet, hfile, fun haddr => ?_⟩
    obtain ⟨content, -, hloaded⟩ := hload chain hsheet haddr
    cases hloaded.symm.trans hfailure
  · intro path violations hfind
    exact ((account.files path violations).mp hfind).1
  · intro chain content hsheet haddr hholds violations
    obtain ⟨content', hholds', hloaded⟩ := hload chain hsheet haddr
    cases hholds.unique hholds'
    rw [account.files, Source.finds_iff_of_load hloaded]
    have hlisted : Path.render chain ∈ listed := hmem.mpr ⟨chain, hsheet, rfl⟩
    simp only [hlisted, true_and]
    exact and_comm

/-- A link to a directory with a stylesheet, whose last byte is part of no text. -/
def themedSite : Volume where
  entries :=
    [([bytesOf "site"], .directory), ([bytesOf "shared"], .directory),
      ([bytesOf "module", bytesOf "site"], .link (bytesOf "../shared")),
      ([bytesOf "été.css", bytesOf "shared"], .file (bytesOf "\n$x: 1;" ++ [0xFF]))]
  distinct := by decide +kernel
  placed := Volume.placed_of_forall (by decide +kernel)

theorem load_listed_themedSite :
    let scope : Scope := ⟨themedSite, [], bytesOf "site"⟩
    scope.volume.Reaches scope.base scope.root [bytesOf "site"] ∧
    scope.volume.at? [bytesOf "site"] = some .directory ∧
    ∃ listed, scope.stylesheets "css" = .ok listed ∧ "module/été.css" ∈ listed ∧
      scope.load "module/été.css" = .ok "\n$x: 1;\uFFFD" ∧
      ∃ run, Config.run ⟨scope.root, "css"⟩ themedSite [] = .ok run ∧
        run.report.files.find? "module/été.css" = some [⟨2, "invalid variable name"⟩] := by
  intro scope
  have hroot : scope.volume.Reaches scope.base scope.root [bytesOf "site"] :=
    ⟨by decide, by decide, by decide, 0, by decide, .down rfl (by simp) .done⟩
  have hdirectory : scope.volume.at? [bytesOf "site"] = some .directory := rfl
  have hsite : scope.volume.names [bytesOf "site"] = [bytesOf "module"] := by decide +kernel
  have hshared : scope.volume.names [bytesOf "shared"] = [bytesOf "été.css"] := by decide +kernel
  have hmodule : scope.meet ⟨[bytesOf "site"], []⟩ [] (bytesOf "module") =
      .ok (.directory [bytesOf "shared"]) := rfl
  have hsheet : scope.meet ⟨[bytesOf "shared"], [bytesOf "module"]⟩ [⟨[bytesOf "site"], []⟩]
      (bytesOf "été.css") = .ok .file := rfl
  have hfiles : scope.files = .ok [[bytesOf "été.css", bytesOf "module"]] := by
    rw [files_eq_walk hroot hdirectory]
    simp only [hsite, hshared, walk_cons, hmodule, hsheet, walk]
    rfl
  have hopens : scope.volume.Opens [bytesOf "site"] (bytesOf "module") [bytesOf "shared"] :=
    .through rfl (.up rfl (.down rfl (by simp) .done))
  have hinside : scope.volume.Opens [bytesOf "shared"] (bytesOf "été.css")
      [bytesOf "été.css", bytesOf "shared"] := .itself rfl (by simp)
  have hentered : ¬ Name.Hidden (bytesOf "module") := by decide
  have hstylesheet : scope.volume.IsStylesheet [bytesOf "site"] (bytesOf "css")
      [bytesOf "module", bytesOf "été.css"] :=
    ⟨.inside hopens rfl hentered (.file hinside rfl), [bytesOf "module"], bytesOf "été.css", rfl,
      bytesOf "été", by decide, by decide, by decide⟩
  have haddr : scope.Addressable [bytesOf "module", bytesOf "été.css"] :=
    ⟨by simp [bytesOf], by decide +kernel⟩
  have hrender : Path.render [bytesOf "module", bytesOf "été.css"] = "module/été.css" := by
    decide +kernel
  have hholds : scope.volume.Holds [bytesOf "site"] [bytesOf "module", bytesOf "été.css"]
      (bytesOf "\n$x: 1;" ++ [0xFF]) := ⟨_, hopens.leads.append hinside.leads, rfl⟩
  have hshown : shown (bytesOf "\n$x: 1;" ++ [0xFF]) = "\n$x: 1;\uFFFD" := by decide +kernel
  obtain ⟨listed, hlisted⟩ : ∃ listed, scope.stylesheets "css" = .ok listed :=
    ⟨_, congrArg (Except.map _) hfiles⟩
  obtain ⟨hmem, hload, -, run, hrun, -, -, hfound⟩ :=
    load_listed scope "css" hroot hdirectory hlisted
  obtain ⟨content, hcontent, hloaded⟩ := hload _ hstylesheet haddr
  have hfound := hfound _ _ hstylesheet haddr hholds [⟨2, "invalid variable name"⟩]
  cases hholds.unique hcontent
  rw [hrender] at hloaded hfound
  rw [hshown] at hloaded hfound
  refine ⟨hroot, hdirectory, listed, hlisted, (hmem _).mpr ⟨_, hstylesheet, hrender.symm⟩, hloaded,
    run, hrun, hfound.mpr ⟨by simp, .module, by decide +kernel, by decide +kernel⟩⟩

/-- Every stylesheet can be loaded under the path that is shown for it. -/
def LoadsBack (scope : Scope) (ext : String) (root : Place) : Prop :=
  ∀ chain, scope.volume.IsStylesheet root (bytesOf ext) chain →
    ∃ content, scope.volume.Holds root chain content ∧
      scope.load (Path.render chain) = .ok (shown content)

theorem not_loadsBack_of_error {ext : String} {chain : List Name} {failure : PathFailure}
    (h : scope.volume.IsStylesheet root (bytesOf ext) chain)
    (hload : scope.load (Path.render chain) = .error failure) : ¬ scope.LoadsBack ext root := by
  intro hback
  obtain ⟨content, -, hloaded⟩ := hback chain h
  cases hloaded.symm.trans hload

/-- A directory with one empty file. -/
def single (name : Name) (proper : name.Proper) : Volume where
  entries := [([bytesOf "d"], .directory), ([name, bytesOf "d"], .file [])]
  distinct := by simp
  placed := Volume.placed_of_forall (by
    have hd : Name.Proper (bytesOf "d") := by decide
    simp [hd, proper])

section Single

variable {proper : name.Proper} {base : Place} {path : Path}

theorem at?_single : (single name proper).at? [name, bytesOf "d"] = some (.file []) :=
  Volume.at?_cons_eq_some_iff.mpr (by simp [single])

theorem isStylesheet_single (proper : name.Proper) {ext : String}
    (hext : name.HasExtension (bytesOf ext)) :
    (single name proper).IsStylesheet [bytesOf "d"] (bytesOf ext) [name] :=
  ⟨.file (.itself at?_single (by simp)) at?_single, [], name, rfl, hext⟩

theorem files_single (hroot : (single name proper).Reaches base path [bytesOf "d"]) :
    (⟨single name proper, base, path⟩ : Scope).files = .ok [[name]] := by
  have hnames : (single name proper).names [bytesOf "d"] = [name] := by
    simp [Volume.names, single]
  have hmeet : (⟨single name proper, base, path⟩ : Scope).meet ⟨[bytesOf "d"], []⟩ [] name =
      .ok .file := by
    rw [meet, at?_single]
  rw [files_eq_walk hroot rfl]
  simp only [hnames, walk_cons, hmeet, walk]
  rfl

theorem stylesheets_single (ext : String)
    (hroot : (single name proper).Reaches base path [bytesOf "d"]) :
    ∃ listed, (⟨single name proper, base, path⟩ : Scope).stylesheets ext = .ok listed :=
  ⟨_, congrArg (Except.map _) (files_single hroot)⟩

end Single

/-- A name with a byte that is part of no text. -/
def latinName : Name := bytesOf "caf" ++ 0xE9 :: bytesOf ".css"

/-- A stylesheet is listed and cannot be loaded when its path is too long, and when its name is
shown as another one. -/
theorem loadsBack_fails :
    let long : Scope := ⟨single (bytesOf "e.css") (by decide), [], longRoot⟩
    let latin : Scope := ⟨single latinName (by decide), [], bytesOf "d"⟩
    (long.volume.Reaches long.base long.root [bytesOf "d"] ∧
      long.volume.at? [bytesOf "d"] = some .directory ∧
      (∃ listed, long.stylesheets "css" = .ok listed) ∧ ¬ long.LoadsBack "css" [bytesOf "d"]) ∧
    latin.volume.Reaches latin.base latin.root [bytesOf "d"] ∧
      latin.volume.at? [bytesOf "d"] = some .directory ∧
      (∃ listed, latin.stylesheets "css" = .ok listed) ∧
      ¬ latin.LoadsBack "css" [bytesOf "d"] := by
  intro long latin
  constructor
  · have hroot : long.volume.Reaches long.base long.root [bytesOf "d"] := reaches_longRoot rfl
    have hsheet : long.volume.IsStylesheet [bytesOf "d"] (bytesOf "css") [bytesOf "e.css"] :=
      isStylesheet_single (by decide) ⟨bytesOf "e", by decide, by decide, by decide⟩
    have htext : ∀ name ∈ [bytesOf "e.css"], ∃ cs, name = encode cs := by simp [bytesOf]
    have hlong : Path.maxLength <
        (long.root.join (bytesOf (Path.render [bytesOf "e.css"]))).length := by
      rw [Path.bytesOf_render htext, List.intercalate_singleton]
      exact long_of_longRoot (by decide)
    exact ⟨hroot, rfl, stylesheets_single "css" hroot,
      not_loadsBack_of_error hsheet (load_of_long hroot hsheet.1 htext hlong)⟩
  · have hroot : latin.volume.Reaches latin.base latin.root [bytesOf "d"] := reaches_d rfl
    have hsheet : latin.volume.IsStylesheet [bytesOf "d"] (bytesOf "css") [latinName] :=
      isStylesheet_single (by decide) ⟨bytesOf "caf" ++ [0xE9], by decide, by decide, by decide⟩
    have hload : latin.load (Path.render [latinName]) = .error (.os .notFound) := by
      decide +kernel
    exact ⟨hroot, rfl, stylesheets_single "css" hroot, not_loadsBack_of_error hsheet hload⟩

end Scope

end SheetLint
