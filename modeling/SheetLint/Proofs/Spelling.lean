import SheetLint.Proofs.Independence
import SheetLint.Proofs.Reload

/-!
# Two paths of one root

Two paths can lead to the same directory, and a report only tells what is below it. So a run from one
path says what a run from the other says. The limits of the system are in the way of that: they are
for whole paths, and the longer a path of the root is, or the more links it goes through, the less is
left for what is below. `Passes` follows a walk entry by entry, and `Unhindered` says that no look-up
on the way comes to a limit. Then what a walk meets is up to the directory alone.
-/

namespace SheetLint

open Text

theorem isAbsolute_bytesOf {s : String} (h : s.toList.head? ≠ some '/') :
    Path.isAbsolute (bytesOf s) = false := by
  rw [Path.isAbsolute, beq_eq_false_iff_ne]
  intro hslash
  obtain ⟨rest, hrest⟩ := List.head?_eq_some_iff.mp hslash
  have hread : s.toList = '/' :: decodeLossy rest := by
    rw [← decodeLossy_encode s.toList, ← bytesOf, hrest]
    exact readFrom_ascii (by decide) .idle rest
  simp [hread] at h

namespace Volume

variable {v : Volume} {base place target : Place} {path next : Path}

/-- Looking up the path does not come to a limit: the path is not too long, and nothing would change
if more links could be followed. -/
structure Unlimited (v : Volume) (base : Place) (path : Path) : Prop where
  short : path.length ≤ Path.maxLength
  settled : ∀ links, maxLinks ≤ links →
    v.resolve links (origin base path) path.names = v.resolve maxLinks (origin base path) path.names

theorem Reaches.unlimited (h : v.Reaches base path target) : v.Unlimited base path where
  short := h.short
  settled links hlinks := by
    obtain ⟨needed, hle, hleads⟩ := h.leads
    rw [resolve_eq_ok_iff.mpr ⟨needed, hle, hleads⟩]
    exact resolve_eq_ok_iff.mpr ⟨needed, hle.trans hlinks, hleads⟩

/-- Without a limit in the way, what the names lead to is found. -/
theorem Unlimited.reaches (h : v.Unlimited base path) (hne : path ≠ []) (hnul : 0 ∉ path)
    (hleads : v.Leads (origin base path) path.names target) : v.Reaches base path target := by
  obtain ⟨links, hlinks⟩ := leads_iff.mp hleads
  have hfound : v.resolve (links + maxLinks) (origin base path) path.names = .ok target :=
    resolve_eq_ok_iff.mpr ⟨links, Nat.le_add_right _ _, hlinks⟩
  rw [h.settled _ (Nat.le_add_left _ _)] at hfound
  exact ⟨hne, hnul, h.short, resolve_eq_ok_iff.mp hfound⟩

/-- Without a limit in the way, what is found behind a path is up to where the path leads. -/
theorem Reaches.find_join (h : v.Reaches base path place) (hnext : next.isAbsolute = false)
    (hlimit : v.Unlimited base (path.join next)) :
    v.find base (path.join next) =
      if next.contains 0 then .error .nulInPath
      else (v.resolve maxLinks place next.names).mapError .os := by
  obtain ⟨links, -, hleads⟩ := h.leads
  have hnul : (path.join next).contains 0 = next.contains 0 := by
    rw [Bool.eq_iff_iff, List.contains_iff_mem, List.contains_iff_mem, nul_mem_join_iff hnext]
    simp [h.no_nul]
  have hresolve : v.resolve maxLinks (origin base (path.join next)) (path.join next).names =
      v.resolve maxLinks place next.names := by
    rw [← hlimit.settled (links + maxLinks) (Nat.le_add_left _ _)]
    exact hleads.resolve_join h.nonempty hnext maxLinks
  rw [find, hnul, if_neg (join_ne_nil_of_relative h.nonempty hnext),
    if_neg (Nat.not_lt.mpr hlimit.short), hresolve]

end Volume

namespace Scope

variable {scope scope' : Scope} {root : Place} {here : Visit} {above : List Visit} {name : Name}
  {names : List Name} {ext : String}

/-- A walk from the root gets to the directory `here`, and these names are left of it. -/
inductive Passes (scope : Scope) (root : Place) : Visit → List Visit → List Name → Prop where
  | start : Passes scope root ⟨root, []⟩ [] (scope.volume.names root)
  | next {here : Visit} {above : List Visit} {name : Name} {others : List Name} {kind : Met}
      (before : Passes scope root here above (name :: others))
      (met : scope.meet here above name = .ok kind) (leaf : ∀ place, kind ≠ .directory place) :
      Passes scope root here above others
  | enter {here : Visit} {above : List Visit} {name : Name} {others : List Name} {place : Place}
      (before : Passes scope root here above (name :: others))
      (met : scope.meet here above name = .ok (.directory place)) :
      Passes scope root ⟨place, name :: here.trail⟩ (here :: above) (scope.volume.names place)
  | leave {here : Visit} {above : List Visit} {name : Name} {others : List Name} {place : Place}
      {trails : List (List Name)} (before : Passes scope root here above (name :: others))
      (met : scope.meet here above name = .ok (.directory place))
      (inside : scope.walk ⟨place, name :: here.trail⟩ (here :: above) (scope.volume.names place) =
        .ok trails) :
      Passes scope root here above others

/-- No look-up that a run makes below its root comes to a limit: neither at the links and the
directories that the walk meets nor at the files that are loaded. -/
structure Unhindered (scope : Scope) (root : Place) (ext : String) : Prop where
  link : ∀ here above name others path, scope.Passes root here above (name :: others) →
    scope.volume.at? (name :: here.place) = some (.link path) →
    scope.volume.Unlimited scope.base (scope.pathOf (name :: here.trail))
  directory : ∀ here above name others, scope.Passes root here above (name :: others) →
    scope.volume.at? (name :: here.place) = some .directory → ¬ name.Hidden →
    (scope.pathOf (name :: here.trail)).length ≤ Path.maxLength
  file : ∀ listed path, scope.stylesheets ext = .ok listed → path ∈ listed →
    Role.ofPath? path ext ≠ none →
    scope.volume.Unlimited scope.base (scope.root.join (bytesOf path))

/-- The entry is a link, and all that it leads to is directories that are being walked. -/
def Blocked (v : Volume) (here : Visit) (above : List Visit) (name : Name) : Prop :=
  (∃ path, v.at? (name :: here.place) = some (.link path)) ∧
    ∀ target, v.Opens here.place name target → ∃ visit ∈ here :: above, visit.place = target

theorem opens_of_reaches {entry : Entry} {target : Place} (hhere : scope.Stands here)
    (found : scope.volume.at? (name :: here.place) = some entry)
    (h : scope.volume.Reaches scope.base (scope.pathOf (name :: here.trail)) target) :
    scope.volume.Opens here.place name target := by
  obtain ⟨links, -, hleads⟩ := h.leads
  have hname := Volume.proper_of_at? found
  exact Volume.opens_of_leads found ((hhere.leads_iff hname).mp hleads.leads)

/-- Without a limit in the way, what an entry leads to is found under the path of the entry. -/
theorem reaches_of_unlimited {target : Place} (hhere : scope.Stands here)
    (hnul : 0 ∉ scope.pathOf here.trail)
    (hlimit : scope.volume.Unlimited scope.base (scope.pathOf (name :: here.trail)))
    (opens : scope.volume.Opens here.place name target) :
    scope.volume.Reaches scope.base (scope.pathOf (name :: here.trail)) target := by
  obtain ⟨entry, found⟩ := opens.found
  have hname := Volume.proper_of_at? found
  refine hlimit.reaches ?_ ?_ ((hhere.leads_iff hname).mpr opens.leads)
  · exact Volume.join_ne_nil hhere.nonempty hname
  · exact Volume.nul_not_mem_join hnul hname

/-- What blocks a walk is an obstacle to it, whatever the path of its root is. -/
theorem obstacle_of_blocked (hhere : scope.Stands here)
    (h : Blocked scope.volume here above name) : scope.Obstacle here above name := by
  obtain ⟨⟨path, found⟩, hall⟩ := h
  by_cases hreaches : ∃ target,
      scope.volume.Reaches scope.base (scope.pathOf (name :: here.trail)) target
  · obtain ⟨target, hreaches⟩ := hreaches
    obtain ⟨visit, hvisit, rfl⟩ := hall target (opens_of_reaches hhere found hreaches)
    exact .link (.loop found hreaches hvisit)
  · exact .link (.lost found (not_exists.mp hreaches))

theorem Meets.unique {met met' : Met} (h : scope.Meets here name met)
    (h' : scope.Meets here name met') : met = met' := by
  cases h with
  | hidden opens directory hidden =>
    cases h' with
    | hidden => rfl
    | file opens' regular =>
      cases opens.unique opens'
      rw [directory] at regular
      cases regular
    | directory _ _ entered => exact absurd hidden entered
  | file opens regular =>
    cases h' with
    | hidden opens' directory =>
      cases opens.unique opens'
      rw [directory] at regular
      cases regular
    | file => rfl
    | directory opens' directory =>
      cases opens.unique opens'
      rw [directory] at regular
      cases regular
  | directory opens directory entered => exact (h'.eq_directory opens directory entered).symm

theorem Chain.proper (h : scope.Chain root (here :: above)) : ∀ name ∈ here.trail, name.Proper := by
  generalize hchain : here :: above = chain at h
  induction h generalizing here above with
  | root =>
    cases hchain
    simp
  | enter _ opens _ ih =>
    cases hchain
    obtain ⟨entry, found⟩ := opens.found
    exact List.forall_mem_cons.mpr ⟨Volume.proper_of_at? found, ih rfl⟩

theorem Passes.chain (hstands : scope.Stands ⟨root, []⟩) (h : scope.Passes root here above names) :
    scope.Chain root (here :: above) ∧ ∀ name ∈ names, name ∈ scope.volume.names here.place := by
  induction h with
  | start => exact ⟨.root, fun _ hname => hname⟩
  | next _ _ _ ih => exact ⟨ih.1, (List.forall_mem_cons.mp ih.2).2⟩
  | enter _ met ih =>
    obtain ⟨hchain, hnames⟩ := ih
    have hname := (List.forall_mem_cons.mp hnames).1
    cases meets_of_meet (hchain.stands hstands _ List.mem_cons_self) hname met with
    | directory opens directory => exact ⟨.enter hchain opens directory, fun _ hname => hname⟩
  | leave _ _ _ ih => exact ⟨ih.1, (List.forall_mem_cons.mp ih.2).2⟩

section Root

variable (hroot : scope.volume.Reaches scope.base scope.root root)
  (hdirectory : scope.volume.at? root = some .directory)
  (hfree : scope.Unhindered root ext)

include hroot hdirectory hfree

/-- Without a limit in the way there is no other obstacle than what blocks a walk. -/
theorem Passes.obstacle_iff {others : List Name}
    (h : scope.Passes root here above (name :: others)) :
    scope.Obstacle here above name ↔ Blocked scope.volume here above name := by
  have hstands := stands_of_reaches hroot hdirectory
  obtain ⟨hchain, -⟩ := h.chain hstands
  have hhere := hchain.stands hstands _ List.mem_cons_self
  refine ⟨fun hobstacle => ?_, obstacle_of_blocked hhere⟩
  cases hobstacle with
  | link bad =>
    cases bad with
    | @lost path found lost =>
      have hlimit := hfree.link _ _ _ _ _ h found
      have hnul := nul_not_mem_pathOf hroot.no_nul hchain.proper
      refine ⟨⟨path, found⟩, fun target opens => absurd ?_ (lost target)⟩
      exact reaches_of_unlimited hhere hnul hlimit opens
    | @loop path visit found reaches walked =>
      refine ⟨⟨path, found⟩, fun target opens => ⟨visit, walked, ?_⟩⟩
      exact (opens_of_reaches hhere found reaches).unique opens
  | depth opens directory entered long =>
    cases opens with
    | itself =>
      exact absurd (hfree.directory _ _ _ _ h directory entered) (Nat.not_le.mpr long)
    | through found => exact absurd (hfree.link _ _ _ _ _ h found).short (Nat.not_le.mpr long)

theorem Passes.meet_eq_ok_iff {others : List Name} {met : Met}
    (h : scope.Passes root here above (name :: others)) :
    scope.meet here above name = .ok met ↔
      ¬ Blocked scope.volume here above name ∧ scope.Meets here name met := by
  have hstands := stands_of_reaches hroot hdirectory
  obtain ⟨hchain, hnames⟩ := h.chain hstands
  have hvisits := hchain.stands hstands
  have hhere := hvisits _ List.mem_cons_self
  have hname := (List.forall_mem_cons.mp hnames).1
  rw [← h.obstacle_iff hroot hdirectory hfree,
    ← meet_eq_error_iff hhere fun visit hvisit => (hvisits visit hvisit).directory]
  constructor
  · intro hmet
    exact ⟨by simp [hmet], meets_of_meet hhere hname hmet⟩
  · rintro ⟨hclear, hmeets⟩
    cases hmet : scope.meet here above name with
    | error error => exact absurd ⟨error, hmet⟩ hclear
    | ok met' => rw [(meets_of_meet hhere hname hmet).unique hmeets]

end Root

/-- A path that is shown does not start at the root of the volume. -/
theorem isAbsolute_render {chain : List Name} (hne : chain ≠ [])
    (hproper : ∀ name ∈ chain, name.Proper) :
    Path.isAbsolute (bytesOf (Path.render chain)) = false := by
  refine isAbsolute_bytesOf fun hslash => ?_
  obtain ⟨rest, hrest⟩ := List.head?_eq_some_iff.mp hslash
  obtain ⟨name, names, rfl⟩ := List.exists_cons_of_ne_nil hne
  have hsplit := Path.split_render hne hproper
  rw [hrest, List.map_cons] at hsplit
  exact (Path.decodeLossy_of_proper (hproper name List.mem_cons_self)).1
    (List.cons.inj hsplit).1.symm

/-- The same root under another path. -/
def respelled (scope : Scope) (path : Path) : Scope := { scope with root := path }

@[simp] theorem respelled_volume (scope : Scope) (path : Path) :
    (scope.respelled path).volume = scope.volume := rfl

section Respelled

variable {path : Path} {listed : List String}
  (hroot : scope.volume.Reaches scope.base scope.root root)
  (hroot' : (scope.respelled path).volume.Reaches (scope.respelled path).base
    (scope.respelled path).root root)
  (hdirectory : scope.volume.at? root = some .directory)
  (hfree : scope.Unhindered root ext) (hfree' : (scope.respelled path).Unhindered root ext)

theorem Meets.respelled {met : Met} (h : scope.Meets here name met) (path : Path) :
    (scope.respelled path).Meets here name met := by
  cases h with
  | hidden opens directory hidden => exact .hidden opens directory hidden
  | file opens regular => exact .file opens regular
  | directory opens directory entered => exact .directory opens directory entered

include hroot hroot' hdirectory hfree hfree'

theorem meet_respelled {others : List Name} {met : Met}
    (hpass : scope.Passes root here above (name :: others))
    (hpass' : (scope.respelled path).Passes root here above (name :: others))
    (h : scope.meet here above name = .ok met) :
    (scope.respelled path).meet here above name = .ok met := by
  obtain ⟨hclear, hmeets⟩ := (hpass.meet_eq_ok_iff hroot hdirectory hfree).mp h
  exact (hpass'.meet_eq_ok_iff hroot' hdirectory hfree').mpr ⟨hclear, hmeets.respelled path⟩

/-- A walk that ends without an error ends in the same way from the other path. The induction
follows the walk and keeps that both walks are at the same entry. -/
theorem walk_respelled {trails : List (List Name)} (hpass : scope.Passes root here above names)
    (hpass' : (scope.respelled path).Passes root here above names)
    (h : scope.walk here above names = .ok trails) :
    (scope.respelled path).walk here above names = .ok trails := by
  fun_induction Scope.walk scope here above names generalizing trails with
  | case1 => rw [walk, h]
  | case2 => cases h
  | case3 here above name others met ih =>
    have met' := meet_respelled hroot hroot' hdirectory hfree hfree' hpass hpass' met
    rw [walk_cons, met']
    exact ih (hpass.next met (by simp)) (hpass'.next met' (by simp)) h
  | case4 here above name others met ih =>
    have met' := meet_respelled hroot hroot' hdirectory hfree hfree' hpass hpass' met
    obtain ⟨rest, hrest, rfl⟩ := eq_ok_of_map h
    rw [walk_cons, met', ih (hpass.next met (by simp)) (hpass'.next met' (by simp)) hrest]
    rfl
  | case5 => cases h
  | case6 here above name others place met inside hinside ihinside ih =>
    have met' := meet_respelled hroot hroot' hdirectory hfree hfree' hpass hpass' met
    have hinside' := ihinside (hpass.enter met) (hpass'.enter met') hinside
    obtain ⟨rest, hrest, rfl⟩ := eq_ok_of_map h
    have hrest' := ih (hpass.leave met hinside) (hpass'.leave met' hinside') hrest
    simp only [walk_cons, met', respelled_volume, hinside', hrest']
    rfl

theorem stylesheets_respelled (h : scope.stylesheets ext = .ok listed) :
    (scope.respelled path).stylesheets ext = .ok listed := by
  obtain ⟨trails, hfiles, rfl⟩ := eq_ok_of_map h
  have hfiles' : (scope.respelled path).files = .ok trails := by
    rw [files_eq_walk hroot hdirectory] at hfiles
    rw [files_eq_walk hroot' hdirectory]
    exact walk_respelled hroot hroot' hdirectory hfree hfree' .start .start hfiles
  obtain ⟨links, -, hleads⟩ := hroot.leads
  have hext : trails.filter ((scope.respelled path).hasExt ext) =
      trails.filter (scope.hasExt ext) := by
    refine List.filter_congr fun trail htrail => ?_
    have hbelow := ((files_exact hleads.leads hdirectory hfiles).2 trail).mp htrail
    obtain ⟨last, others, rfl⟩ := List.exists_cons_of_ne_nil (by simpa using hbelow.names.1)
    rfl
  rw [stylesheets, hfiles', ← hext]
  rfl

theorem load_respelled (h : scope.stylesheets ext = .ok listed) {shownPath : String}
    (hlisted : shownPath ∈ listed) (hrole : Role.ofPath? shownPath ext ≠ none) :
    (scope.respelled path).load shownPath = scope.load shownPath := by
  have h' := stylesheets_respelled hroot hroot' hdirectory hfree hfree' h
  obtain ⟨chain, hsheet, rfl⟩ := (mem_listed_iff hroot hdirectory h).mp hlisted
  have hnext := isAbsolute_render hsheet.1.names.1 hsheet.1.proper
  have hfind := hroot.find_join hnext (hfree.file _ _ h hlisted hrole)
  have hfind' := hroot'.find_join hnext (hfree'.file _ _ h' hlisted hrole)
  have hsame := hfind'.trans hfind.symm
  rw [load, load, Volume.read, Volume.read, hsame]
  rfl

theorem report_respelled (h : scope.stylesheets ext = .ok listed) :
    Report.ofOutcomes (((scope.respelled path).source ext).outcomes ext listed) =
      Report.ofOutcomes ((scope.source ext).outcomes ext listed) := by
  refine congrArg Report.ofOutcomes (List.map_congr_left fun shownPath hlisted => ?_)
  cases hrole : Role.ofPath? shownPath ext with
  | none => rw [Source.outcome_of_role_none hrole, Source.outcome_of_role_none hrole]
  | some role =>
    have hload : ((scope.respelled path).source ext).load shownPath =
        (scope.source ext).load shownPath :=
      load_respelled hroot hroot' hdirectory hfree hfree' h hlisted (by simp [hrole])
    rw [Source.outcome_congr hload]

end Respelled

/-- Both runs end with the same report, or both end because their files cannot be listed. -/
def EndAlike (result result' : Except RunError Run) : Prop :=
  (∃ run run', result = .ok run ∧ result' = .ok run' ∧ run.report = run'.report) ∨
    ∃ error error', result = .error (.discovery error) ∧ result' = .error (.discovery error')

theorem run_of_stylesheets_ok {listed : List String}
    (hroot : scope.volume.Reaches scope.base scope.root root)
    (hdirectory : scope.volume.at? root = some .directory)
    (h : scope.stylesheets ext = .ok listed) :
    ∃ run, Config.run ⟨scope.root, ext⟩ scope.volume scope.base = .ok run ∧
      run.report = .ofOutcomes ((scope.source ext).outcomes ext listed) := by
  have hpaths : (scope.source ext).paths = .ok listed := by rw [source, h]; rfl
  exact ⟨_, (run_eq_run hroot hdirectory ext).trans
    (Source.run_of_paths hpaths ⟨scope.root, ext⟩), rfl⟩

theorem run_of_stylesheets_error {error : WalkError}
    (hroot : scope.volume.Reaches scope.base scope.root root)
    (hdirectory : scope.volume.at? root = some .directory)
    (h : scope.stylesheets ext = .error error) :
    Config.run ⟨scope.root, ext⟩ scope.volume scope.base = .error (.discovery error) := by
  have hpaths : (scope.source ext).paths = .error (.discovery error) := by rw [source, h]; rfl
  rw [run_eq_run hroot hdirectory, Source.run, hpaths]
  rfl

/-- Two paths that lead to the same directory give the same report, or none because of an error in
listing the files, if no look-up of the two runs comes to a limit. -/
theorem run_endAlike (v : Volume) (base : Place) (ext : String) {root : Place} {path path' : Path}
    (hroot : v.Reaches base path root) (hroot' : v.Reaches base path' root)
    (hdirectory : v.at? root = some .directory)
    (hfree : (⟨v, base, path⟩ : Scope).Unhindered root ext)
    (hfree' : (⟨v, base, path'⟩ : Scope).Unhindered root ext) :
    EndAlike (Config.run ⟨path, ext⟩ v base) (Config.run ⟨path', ext⟩ v base) := by
  let scope : Scope := ⟨v, base, path⟩
  let scope' : Scope := scope.respelled path'
  cases hlisted : scope.stylesheets ext with
  | ok listed =>
    have hlisted' : scope'.stylesheets ext = .ok listed :=
      stylesheets_respelled hroot hroot' hdirectory hfree hfree' hlisted
    obtain ⟨run, hrun, hreport⟩ := run_of_stylesheets_ok hroot hdirectory hlisted
    obtain ⟨run', hrun', hreport'⟩ := run_of_stylesheets_ok hroot' hdirectory hlisted'
    have hsame : Report.ofOutcomes ((scope'.source ext).outcomes ext listed) =
        Report.ofOutcomes ((scope.source ext).outcomes ext listed) :=
      report_respelled hroot hroot' hdirectory hfree hfree' hlisted
    exact Or.inl ⟨run, run', hrun, hrun', hreport.trans (hsame.symm.trans hreport'.symm)⟩
  | error error =>
    cases hlisted' : scope'.stylesheets ext with
    | ok listed =>
      -- Seen from the other path, this walk would have listed the files too.
      have hback : (scope'.respelled path).stylesheets ext = .ok listed :=
        stylesheets_respelled hroot' hroot hdirectory hfree' hfree hlisted'
      cases hlisted.symm.trans hback
    | error error' =>
      exact Or.inr ⟨error, error', run_of_stylesheets_error hroot hdirectory hlisted,
        run_of_stylesheets_error hroot' hdirectory hlisted'⟩

/-- A directory with a link to another one, and a link with a hidden name to it. -/
def latestSite : Volume where
  entries :=
    [([bytesOf "site"], .directory), ([bytesOf "shared"], .directory),
      ([bytesOf "module", bytesOf "site"], .link (bytesOf "../shared")),
      ([bytesOf "x.css", bytesOf "shared"], .file (bytesOf "$x: 1;")),
      ([bytesOf ".latest"], .link (bytesOf "site"))]
  distinct := by decide +kernel
  placed := Volume.placed_of_forall (by decide +kernel)

theorem names_latestSite : latestSite.names [bytesOf "site"] = [bytesOf "module"] ∧
    latestSite.names [bytesOf "shared"] = [bytesOf "x.css"] := by
  decide +kernel

section Latest

variable {path : Path}
  (hmodule : (⟨latestSite, [], path⟩ : Scope).meet ⟨[bytesOf "site"], []⟩ [] (bytesOf "module") =
    .ok (.directory [bytesOf "shared"]))
  (hsheet : (⟨latestSite, [], path⟩ : Scope).meet ⟨[bytesOf "shared"], [bytesOf "module"]⟩
    [⟨[bytesOf "site"], []⟩] (bytesOf "x.css") = .ok .file)

include hmodule hsheet

/-- A walk of the site meets one link and one file. -/
theorem passes_latestSite
    (h : (⟨latestSite, [], path⟩ : Scope).Passes [bytesOf "site"] here above names) :
    (here = ⟨[bytesOf "site"], []⟩ ∧ above = [] ∧ (names = [bytesOf "module"] ∨ names = [])) ∨
    (here = ⟨[bytesOf "shared"], [bytesOf "module"]⟩ ∧ above = [⟨[bytesOf "site"], []⟩] ∧
      (names = [bytesOf "x.css"] ∨ names = [])) := by
  obtain ⟨hsite, hshared⟩ := names_latestSite
  induction h with
  | start => exact Or.inl ⟨rfl, rfl, Or.inl hsite⟩
  | next _ _ _ ih | leave _ _ _ ih =>
    rcases ih with ⟨rfl, rfl, hnames | hnames⟩ | ⟨rfl, rfl, hnames | hnames⟩
    · exact Or.inl ⟨rfl, rfl, Or.inr (List.cons.inj hnames).2⟩
    · cases hnames
    · exact Or.inr ⟨rfl, rfl, Or.inr (List.cons.inj hnames).2⟩
    · cases hnames
  | enter _ met ih =>
    rcases ih with ⟨rfl, rfl, hnames | hnames⟩ | ⟨rfl, rfl, hnames | hnames⟩
    · cases hnames
      cases hmodule.symm.trans met
      exact Or.inr ⟨rfl, rfl, Or.inl hshared⟩
    · cases hnames
    · cases hnames
      cases hsheet.symm.trans met
    · cases hnames

theorem files_latestSite (hroot : latestSite.Reaches [] path [bytesOf "site"]) :
    (⟨latestSite, [], path⟩ : Scope).files = .ok [[bytesOf "x.css", bytesOf "module"]] := by
  obtain ⟨hsite, hshared⟩ := names_latestSite
  rw [files_eq_walk hroot rfl]
  simp only [hsite, hshared, walk_cons, hmodule, hsheet, walk]
  rfl

theorem eq_of_listed_latestSite (hroot : latestSite.Reaches [] path [bytesOf "site"])
    {listed : List String} {shownPath : String}
    (h : (⟨latestSite, [], path⟩ : Scope).stylesheets "css" = .ok listed)
    (hlisted : shownPath ∈ listed) : shownPath = "module/x.css" := by
  have hrelative : Path.relative [bytesOf "x.css", bytesOf "module"] = "module/x.css" := by
    decide +kernel
  rw [stylesheets, files_latestSite hmodule hsheet hroot] at h
  cases h
  obtain ⟨trail, htrail, rfl⟩ := List.mem_map.mp (List.mem_mergeSort.mp hlisted)
  cases List.mem_singleton.mp (List.mem_of_mem_filter htrail)
  exact hrelative

theorem unhindered_latestSite (hroot : latestSite.Reaches [] path [bytesOf "site"])
    (hshared : latestSite.Reaches [] (path.join (bytesOf "module")) [bytesOf "shared"])
    (hfile : latestSite.Reaches [] (path.join (bytesOf "module/x.css"))
      [bytesOf "x.css", bytesOf "shared"]) :
    (⟨latestSite, [], path⟩ : Scope).Unhindered [bytesOf "site"] "css" where
  link here above name others target hpass found := by
    rcases passes_latestSite hmodule hsheet hpass with
      ⟨rfl, rfl, hnames | hnames⟩ | ⟨rfl, rfl, hnames | hnames⟩
    · cases hnames
      exact hshared.unlimited
    · cases hnames
    · cases hnames
      cases found
    · cases hnames
  directory here above name others hpass found := by
    rcases passes_latestSite hmodule hsheet hpass with
      ⟨rfl, rfl, hnames | hnames⟩ | ⟨rfl, rfl, hnames | hnames⟩
    all_goals cases hnames
    all_goals cases found
  file listed shownPath h hlisted _ := by
    cases eq_of_listed_latestSite hmodule hsheet hroot h hlisted
    exact hfile.unlimited

end Latest

theorem run_endAlike_latestSite :
    latestSite.Reaches [] (bytesOf "site") [bytesOf "site"] ∧
    latestSite.Reaches [] (bytesOf "shared/.././.latest//") [bytesOf "site"] ∧
    latestSite.at? [bytesOf "site"] = some .directory ∧
    (⟨latestSite, [], bytesOf "site"⟩ : Scope).Unhindered [bytesOf "site"] "css" ∧
    (⟨latestSite, [], bytesOf "shared/.././.latest//"⟩ : Scope).Unhindered [bytesOf "site"] "css" ∧
    (∃ run, Config.run ⟨bytesOf "site", "css"⟩ latestSite [] = .ok run) ∧
    EndAlike (Config.run ⟨bytesOf "site", "css"⟩ latestSite [])
      (Config.run ⟨bytesOf "shared/.././.latest//", "css"⟩ latestSite []) := by
  have hfind : ∀ {path : Path} {target : Place},
      latestSite.find [] path = .ok target → latestSite.Reaches [] path target :=
    Volume.find_eq_ok_iff.mp
  have hroot : latestSite.Reaches [] (bytesOf "site") [bytesOf "site"] :=
    hfind (by decide +kernel)
  have hroot' : latestSite.Reaches [] (bytesOf "shared/.././.latest//") [bytesOf "site"] :=
    hfind (by decide +kernel)
  have hfree := unhindered_latestSite (by decide +kernel) (by decide +kernel) hroot
    (hfind (by decide +kernel)) (hfind (by decide +kernel))
  have hfree' := unhindered_latestSite (by decide +kernel) (by decide +kernel) hroot'
    (hfind (by decide +kernel)) (hfind (by decide +kernel))
  have hlisted : (⟨latestSite, [], bytesOf "site"⟩ : Scope).stylesheets "css" = .ok _ :=
    congrArg (Except.map _) (files_latestSite (by decide +kernel) (by decide +kernel) hroot)
  obtain ⟨run, hrun, -⟩ := run_of_stylesheets_ok hroot rfl hlisted
  exact ⟨hroot, hroot', rfl, hfree, hfree', ⟨run, hrun⟩,
    run_endAlike latestSite [] "css" hroot hroot' rfl hfree hfree'⟩

theorem files_nested : (⟨nested, [], bytesOf "d"⟩ : Scope).files = .ok [] := by
  have hd : nested.names [bytesOf "d"] = [bytesOf "e"] := by decide +kernel
  have he : nested.names [bytesOf "e", bytesOf "d"] = [] := by decide +kernel
  have hmeet : (⟨nested, [], bytesOf "d"⟩ : Scope).meet ⟨[bytesOf "d"], []⟩ [] (bytesOf "e") =
      .ok (.directory [bytesOf "e", bytesOf "d"]) := by
    decide +kernel
  rw [files_eq_walk (reaches_d rfl) rfl]
  simp only [hd, he, walk_cons, hmeet, walk]
  rfl

theorem obstructed_nested : (⟨nested, [], longRoot⟩ : Scope).Obstructed [bytesOf "d"] := by
  have hstart : (⟨nested, [], longRoot⟩ : Scope).pathOf [] = longRoot := rfl
  have hlong : Path.maxLength <
      ((⟨nested, [], longRoot⟩ : Scope).pathOf [bytesOf "e"]).length := by
    rw [pathOf_cons, hstart]
    exact long_of_longRoot (by decide)
  exact ⟨_, _, _, .root, by simp [Visit.Exposed],
    .depth (.itself rfl (by simp)) rfl (by decide) hlong⟩

/-- The length of a path is a limit as well: a walk from the longest path of a directory that can be
looked up fails where the walk from its name does not, and there is no link at all. -/
theorem run_not_endAlike :
    nested.Reaches [] (bytesOf "d") [bytesOf "d"] ∧ nested.Reaches [] longRoot [bytesOf "d"] ∧
    nested.at? [bytesOf "d"] = some .directory ∧
    (∀ place path, nested.at? place ≠ some (.link path)) ∧
    ¬ EndAlike (Config.run ⟨bytesOf "d", "scss"⟩ nested [])
      (Config.run ⟨longRoot, "scss"⟩ nested []) := by
  have hshort : nested.Reaches [] (bytesOf "d") [bytesOf "d"] := reaches_d rfl
  have hlong : nested.Reaches [] longRoot [bytesOf "d"] := reaches_longRoot rfl
  refine ⟨hshort, hlong, rfl, fun place path found => ?_, ?_⟩
  · cases place with
    | nil => cases found
    | cons name parent => simpa [nested] using Volume.at?_cons_eq_some_iff.mp found
  · obtain ⟨error, herror⟩ := (files_eq_error_iff hlong rfl).mpr obstructed_nested
    have hlisted : (⟨nested, [], bytesOf "d"⟩ : Scope).stylesheets "scss" = .ok _ :=
      congrArg (Except.map _) files_nested
    have hlost : (⟨nested, [], longRoot⟩ : Scope).stylesheets "scss" = .error error :=
      congrArg (Except.map _) herror
    obtain ⟨run, hrun, -⟩ := run_of_stylesheets_ok hshort rfl hlisted
    have hfailed := run_of_stylesheets_error hlong rfl hlost
    rintro (⟨_, run', -, hrun', -⟩ | ⟨error', _, herror', -⟩)
    · cases hfailed.symm.trans hrun'
    · cases hrun.symm.trans herror'

end Scope

end SheetLint
