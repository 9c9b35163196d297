import SheetLint.Proofs.Walk

/-!
# Which stylesheets are found

The paths found below a root are those of the files whose names end in the extension, one for each
sequence of names that leads to such a file. A path is shown with slashes between its names and can
be taken apart at them again, so two of them are shown alike only if a name in them is no text.
-/

namespace SheetLint

open Text

namespace Name

/-- The extension is what follows the last dot, and something stands before that dot. -/
def HasExtension (ext : Bytes) (name : Name) : Prop :=
  ∃ stem, stem ≠ [] ∧ name = stem ++ dot :: ext ∧ dot ∉ ext

end Name

namespace Volume

variable {v : Volume} {place : Place} {chain : List Name}

/-- The names lead from the directory at a place down to a file with the extension. -/
def IsStylesheet (v : Volume) (place : Place) (ext : Bytes) (chain : List Name) : Prop :=
  v.Below place chain ∧ ∃ front name, chain = front ++ [name] ∧ name.HasExtension ext

theorem Below.names (h : v.Below place chain) :
    chain ≠ [] ∧ ∀ name ∈ chain, ∃ inside, name ∈ v.names inside := by
  induction h with
  | file opens =>
    refine ⟨by simp, ?_⟩
    intro name hm
    cases List.mem_singleton.mp hm
    exact ⟨_, mem_names_iff.mpr opens.found⟩
  | inside opens _ _ _ ih =>
    refine ⟨by simp, ?_⟩
    intro name hm
    rcases List.mem_cons.mp hm with rfl | hm
    · exact ⟨_, mem_names_iff.mpr opens.found⟩
    · exact ih.2 name hm

theorem proper_of_mem_names {name : Name} (h : name ∈ v.names place) : name.Proper := by
  obtain ⟨entry, found⟩ := mem_names_iff.mp h
  exact proper_of_at? found

theorem Below.proper (h : v.Below place chain) : ∀ name ∈ chain, name.Proper := by
  intro name hm
  obtain ⟨inside, hname⟩ := h.names.2 name hm
  exact proper_of_mem_names hname

/-- A table can be checked name by name for texts. -/
theorem text_of_forall (h : ∀ e ∈ v.entries, isWellFormed (e.1.headD []) = true) (place : Place) :
    ∀ name ∈ v.names place, ∃ cs, name = encode cs := by
  intro name hname
  obtain ⟨entry, found⟩ := mem_names_iff.mp hname
  exact isWellFormed_iff.mp (h _ (at?_cons_eq_some_iff.mp found))

end Volume

namespace Path

/-- The names, outermost first, as they are shown with slashes between them. -/
def render (chain : List Name) : String := "/".intercalate (chain.map shown)

theorem relative_reverse (chain : List Name) : relative chain.reverse = render chain := by
  rw [relative, List.reverse_reverse, render]

theorem not_mem_decodeLossy {name : Name} (h : name.Proper) : '/' ∉ decodeLossy name := by
  have hslash : (0x2F : UInt8).toNat < 0x80 := by decide
  intro hm
  exact h.no_slash ((ofNat_mem_decodeLossy_iff hslash).mp hm)

theorem toList_render (chain : List Name) :
    (render chain).toList = ['/'].intercalate (chain.map decodeLossy) := by
  rw [render, String.toList_intercalate, List.map_map]
  simp [Function.comp_def, shown]

/-- The shown names are the pieces between the slashes of the shown path. -/
theorem split_render {chain : List Name} (hne : chain ≠ []) (h : ∀ name ∈ chain, name.Proper) :
    split '/' (render chain).toList = chain.map decodeLossy := by
  rw [toList_render, split_intercalate (by simpa using hne)]
  intro part hm
  obtain ⟨name, hname, rfl⟩ := List.mem_map.mp hm
  exact not_mem_decodeLossy (h name hname)

/-- A proper name is not shown as one of the names that do not name an entry. -/
theorem decodeLossy_of_proper {name : Name} (h : name.Proper) :
    decodeLossy name ≠ [] ∧ decodeLossy name ≠ ['.'] ∧ decodeLossy name ≠ ['.', '.'] := by
  refine ⟨decodeLossy_ne_nil h.nonempty, fun hread => h.not_here ?_, fun hread => h.not_above ?_⟩
  · rw [@eq_encode_of_not_mem name (by rw [hread]; decide), hread]
    decide
  · rw [@eq_encode_of_not_mem name (by rw [hread]; decide), hread]
    decide

theorem map_encode_decodeLossy {names : List Name} (h : ∀ name ∈ names, ∃ cs, name = encode cs) :
    (names.map decodeLossy).map encode = names := by
  rw [List.map_map]
  apply Eq.trans _ (List.map_id names)
  apply List.map_congr_left
  intro name hm
  obtain ⟨cs, rfl⟩ := h name hm
  rw [Function.comp_apply, decodeLossy_encode, id]

/-- Different sequences of names that are texts are shown differently. -/
theorem render_injective {chain chain' : List Name} (hne : chain ≠ []) (hne' : chain' ≠ [])
    (hproper : ∀ name ∈ chain, name.Proper) (hproper' : ∀ name ∈ chain', name.Proper)
    (htext : ∀ name ∈ chain, ∃ cs, name = encode cs)
    (htext' : ∀ name ∈ chain', ∃ cs, name = encode cs) (h : render chain = render chain') :
    chain = chain' := by
  have hread : chain.map decodeLossy = chain'.map decodeLossy := by
    rw [← split_render hne hproper, ← split_render hne' hproper', h]
  rw [← map_encode_decodeLossy htext, ← map_encode_decodeLossy htext', hread]

end Path

namespace Scope

variable {scope : Scope} {root : Place} {ext : String}

theorem under_root_iff {trail : List Name} :
    (∃ name ∈ scope.volume.names root, scope.Under ⟨root, []⟩ name trail) ↔
      scope.volume.Below root trail.reverse := by
  constructor
  · rintro ⟨name, _, chain, hbelow, rfl⟩
    simpa using hbelow
  · intro h
    obtain ⟨name, chain, htrail, hname⟩ := h.exists_cons
    refine ⟨name, hname, chain, htrail ▸ h, ?_⟩
    rw [← List.reverse_reverse trail, htrail, List.reverse_cons]

/-- The last name of the path decides about the extension. -/
theorem hasExt_iff {trail : List Name} (h : scope.volume.Below root trail.reverse) :
    scope.hasExt ext trail = true ↔
      ∃ front name, trail.reverse = front ++ [name] ∧ name.HasExtension (bytesOf ext) := by
  cases trail with
  | nil => exact absurd rfl h.names.1
  | cons last others =>
    have hproper : last.Proper := h.proper last (by simp)
    have hext : scope.hasExt ext (last :: others) = true ↔ last.HasExtension (bytesOf ext) := by
      rw [hasExt, List.headD_cons, beq_iff_eq, Name.ext?_eq_some_iff hproper.not_above,
        Name.HasExtension]
    rw [hext, List.reverse_cons]
    constructor
    · intro hlast
      exact ⟨_, last, rfl, hlast⟩
    · rintro ⟨front, name, heq, hname⟩
      cases List.cons.inj (List.append_inj_right' heq rfl) |>.1
      exact hname

section Root

variable
  (hroot : scope.volume.Leads (Volume.origin scope.base scope.root) (Path.names scope.root) root)
  (hdirectory : scope.volume.at? root = some .directory)

include hroot hdirectory

theorem stands_root {place : Place} (h : scope.target [] = .ok place) :
    place = root ∧ scope.Stands ⟨root, []⟩ := by
  obtain ⟨hne, hleads⟩ := Volume.leads_of_find h
  exact ⟨hleads.unique hroot, hdirectory, hne, hroot⟩

/-- The files found below a directory, innermost name first. -/
theorem files_exact {trails : List (List Name)} (h : scope.files = .ok trails) :
    trails.Nodup ∧ ∀ trail, trail ∈ trails ↔ scope.volume.Below root trail.reverse := by
  rw [files] at h
  split at h
  · cases h
  next place htarget =>
  obtain ⟨rfl, hstands⟩ := stands_root hroot hdirectory htarget
  rw [if_pos (Volume.isDirectory_iff.mpr hdirectory)] at h
  obtain ⟨hnodup, hmem⟩ := walk_exact hstands (scope.volume.nodup_names _) (fun _ hm => hm) h
  refine ⟨hnodup, ?_⟩
  intro trail
  rw [hmem, under_root_iff]

theorem stylesheets_perm {listed : List String} (h : scope.stylesheets ext = .ok listed) :
    ∃ chains : List (List Name), chains.Nodup ∧
      (∀ chain, chain ∈ chains ↔ scope.volume.IsStylesheet root (bytesOf ext) chain) ∧
      listed.Perm (chains.map Path.render) := by
  obtain ⟨trails, hfiles, rfl⟩ := eq_ok_of_map h
  obtain ⟨hnodup, hmem⟩ := files_exact hroot hdirectory hfiles
  refine ⟨(trails.filter (scope.hasExt ext)).map List.reverse, ?_, ?_, ?_⟩
  · exact (hnodup.filter _).map List.reverse_injective
  · intro chain
    rw [List.mem_map]
    constructor
    · rintro ⟨trail, hm, rfl⟩
      obtain ⟨hm, hext⟩ := List.mem_filter.mp hm
      have hbelow := (hmem trail).mp hm
      exact ⟨hbelow, (hasExt_iff hbelow).mp hext⟩
    · rintro ⟨hbelow, hext⟩
      have hbelow' : scope.volume.Below root chain.reverse.reverse := by
        rwa [List.reverse_reverse]
      have hext' : scope.hasExt ext chain.reverse = true :=
        (hasExt_iff hbelow').mpr (by rwa [List.reverse_reverse])
      have hlisted := List.mem_filter.mpr ⟨(hmem _).mpr hbelow', hext'⟩
      exact ⟨chain.reverse, hlisted, chain.reverse_reverse⟩
  · have hrender : (trails.filter (scope.hasExt ext)).map Path.relative =
        ((trails.filter (scope.hasExt ext)).map List.reverse).map Path.render := by
      rw [List.map_map]
      apply List.map_congr_left
      intro trail _
      rw [Function.comp_apply, ← Path.relative_reverse, List.reverse_reverse]
    rw [← hrender]
    exact List.mergeSort_perm _ _

end Root

theorem stylesheets_sorted {listed : List String} (h : scope.stylesheets ext = .ok listed) :
    listed.Pairwise fun s t => bytesOf s ≤ bytesOf t := by
  obtain ⟨trails, _, rfl⟩ := eq_ok_of_map h
  refine (List.pairwise_mergeSort ?_ ?_ _).imp fun hle => ?_
  · intro s t u hst htu
    simp only [decide_eq_true_eq] at hst htu ⊢
    exact hst.trans htu
  · intro s t
    simpa using le_total s t
  · rw [bytesOf_le_iff]
    simpa using hle

/-- The list is made from the trails of a walk, where it is sorted already. -/
theorem stylesheets_of_files {trails : List (List Name)} {listed : List String}
    (hfiles : scope.files = .ok trails)
    (hpaths : (trails.filter (scope.hasExt ext)).map Path.relative = listed)
    (hsorted : listed.Pairwise (· ≤ ·)) : scope.stylesheets ext = .ok listed := by
  subst hpaths
  rw [stylesheets, hfiles]
  exact congrArg Except.ok (List.mergeSort_of_pairwise (by simpa using hsorted))

/-- Finding stylesheets is sound and complete. The list is sorted by bytes and has one path for each
sequence of names that leads from the root to a file with the extension and enters no hidden
directory. No path has a name that could lead elsewhere, and none occurs twice where all names are
texts. -/
theorem stylesheets_exact (scope : Scope) (ext : String) {root : Place} {listed : List String}
    (hroot : scope.volume.Leads (Volume.origin scope.base scope.root) (Path.names scope.root) root)
    (hdirectory : scope.volume.at? root = some .directory)
    (h : scope.stylesheets ext = .ok listed) :
    (listed.Pairwise fun s t => bytesOf s ≤ bytesOf t) ∧
    (∃ chains : List (List Name), chains.Nodup ∧
      (∀ chain, chain ∈ chains ↔ scope.volume.IsStylesheet root (bytesOf ext) chain) ∧
      listed.Perm (chains.map fun chain => "/".intercalate (chain.map shown))) ∧
    (∀ path ∈ listed, path ≠ "" ∧ path.toList.head? ≠ some '/' ∧
      ∀ part ∈ split '/' path.toList, part ≠ [] ∧ part ≠ ['.'] ∧ part ≠ ['.', '.']) ∧
    ((∀ place, ∀ name ∈ scope.volume.names place, ∃ cs, name = encode cs) → listed.Nodup) := by
  obtain ⟨chains, hnodup, hmem, hperm⟩ := stylesheets_perm hroot hdirectory h
  refine ⟨stylesheets_sorted h, ⟨chains, hnodup, hmem, hperm⟩, ?_, ?_⟩
  · intro path hpath
    obtain ⟨chain, hchain, rfl⟩ := List.mem_map.mp (hperm.mem_iff.mp hpath)
    obtain ⟨hbelow, _⟩ := (hmem chain).mp hchain
    have hparts : ∀ part ∈ split '/' (Path.render chain).toList,
        part ≠ [] ∧ part ≠ ['.'] ∧ part ≠ ['.', '.'] := by
      rw [Path.split_render hbelow.names.1 hbelow.proper]
      intro part hpart
      obtain ⟨name, hname, rfl⟩ := List.mem_map.mp hpart
      exact Path.decodeLossy_of_proper (hbelow.proper name hname)
    refine ⟨?_, ?_, hparts⟩
    · intro hempty
      exact (hparts [] (by simp [hempty, split, pieces])).1 rfl
    · intro hslash
      obtain ⟨rest, hrest⟩ := List.head?_eq_some_iff.mp hslash
      exact (hparts [] (by simp [hrest, split, pieces])).1 rfl
  · intro htext
    apply hperm.nodup_iff.mpr
    apply List.Nodup.map_on _ hnodup
    intro chain hchain chain' hchain' heq
    obtain ⟨hbelow, _⟩ := (hmem chain).mp hchain
    obtain ⟨hbelow', _⟩ := (hmem chain').mp hchain'
    have hall : ∀ {chain}, scope.volume.Below root chain →
        ∀ name ∈ chain, ∃ cs, name = encode cs := by
      intro chain hbelow name hm
      obtain ⟨inside, hname⟩ := hbelow.names.2 name hm
      exact htext inside name hname
    exact Path.render_injective hbelow.names.1 hbelow'.names.1 hbelow.proper hbelow'.proper
      (hall hbelow) (hall hbelow') heq

/-- A directory with a link to another one, a hidden directory and a file whose name starts with a
dot. -/
def linkedSite : Volume where
  entries :=
    [([bytesOf "site"], .directory), ([bytesOf "shared"], .directory),
      ([bytesOf ".local.css", bytesOf "site"], .file []),
      ([bytesOf ".git", bytesOf "site"], .directory),
      ([bytesOf "old.css", bytesOf ".git", bytesOf "site"], .file []),
      ([bytesOf "notes.txt", bytesOf "site"], .file []),
      ([bytesOf "theme", bytesOf "site"], .link (bytesOf "../shared")),
      ([bytesOf "dark.css", bytesOf "shared"], .file [])]
  distinct := by decide +kernel
  placed := Volume.placed_of_forall (by decide +kernel)

theorem stylesheets_linkedSite :
    let scope : Scope := ⟨linkedSite, [], bytesOf "site"⟩
    scope.stylesheets "css" = .ok [".local.css", "theme/dark.css"] ∧
    ∃ chains : List (List Name), chains.Nodup ∧
      (∀ chain, chain ∈ chains ↔ linkedSite.IsStylesheet [bytesOf "site"] (bytesOf "css") chain) ∧
      [".local.css", "theme/dark.css"].Perm
        (chains.map fun chain => "/".intercalate (chain.map shown)) ∧
      [".local.css", "theme/dark.css"].Nodup := by
  intro scope
  have htarget : scope.target [] = .ok [bytesOf "site"] := rfl
  have hdirectory : scope.volume.isDirectory [bytesOf "site"] = true := rfl
  have hsite : scope.volume.names [bytesOf "site"] =
      [bytesOf ".local.css", bytesOf ".git", bytesOf "notes.txt", bytesOf "theme"] := by
    decide +kernel
  have hshared : scope.volume.names [bytesOf "shared"] = [bytesOf "dark.css"] := by decide +kernel
  have hlocal : scope.meet ⟨[bytesOf "site"], []⟩ [] (bytesOf ".local.css") = .ok .file := rfl
  have hgit : scope.meet ⟨[bytesOf "site"], []⟩ [] (bytesOf ".git") = .ok .nothing := rfl
  have hnotes : scope.meet ⟨[bytesOf "site"], []⟩ [] (bytesOf "notes.txt") = .ok .file := rfl
  have htheme : scope.meet ⟨[bytesOf "site"], []⟩ [] (bytesOf "theme") =
      .ok (.directory [bytesOf "shared"]) := rfl
  have hdark : scope.meet ⟨[bytesOf "shared"], [bytesOf "theme"]⟩ [⟨[bytesOf "site"], []⟩]
      (bytesOf "dark.css") = .ok .file := rfl
  have hfiles : scope.files = .ok [[bytesOf ".local.css"], [bytesOf "notes.txt"],
      [bytesOf "dark.css", bytesOf "theme"]] := by
    simp only [files, htarget, hdirectory, if_true, hsite, hshared, walk_cons, hlocal, hgit, hnotes,
      htheme, hdark, walk]
    rfl
  have hlisted : scope.stylesheets "css" = .ok [".local.css", "theme/dark.css"] :=
    stylesheets_of_files hfiles (by decide +kernel) (by decide +kernel)
  have hroot : scope.volume.Leads (Volume.origin scope.base scope.root) (Path.names scope.root)
      [bytesOf "site"] := .down rfl (by simp) .done
  have htext : ∀ place, ∀ name ∈ scope.volume.names place, ∃ cs, name = encode cs := by
    intro place name hname
    have hall : ∀ e ∈ linkedSite.entries, isWellFormed (e.1.headD []) = true := by decide +kernel
    obtain ⟨entry, found⟩ := Volume.mem_names_iff.mp hname
    exact isWellFormed_iff.mp (hall _ (Volume.at?_cons_eq_some_iff.mp found))
  obtain ⟨-, ⟨chains, hnodup, hmem, hperm⟩, -, honce⟩ :=
    stylesheets_exact scope "css" hroot (Volume.isDirectory_iff.mp hdirectory) hlisted
  exact ⟨hlisted, chains, hnodup, hmem, hperm, honce htext⟩

end Scope

end SheetLint
