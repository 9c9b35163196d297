import SheetLint.Proofs.Reload

/-!
# Hidden directories

A walk does not enter a directory below its root whose name is a text that starts with a dot, and
what a directory is called is the name under which it is met, be it a link. Nothing else with the
extension is left out. A directory whose name is no text is entered with a dot in front as well, and
then the dot is shown in front of its name, and a U+FFFD somewhere behind.
-/

namespace SheetLint

open Text

namespace Name

variable {name : Name}

/-- The first byte of the name is a dot. -/
def Dotted (name : Name) : Prop := name.head? = some dot

instance : DecidablePred Dotted := fun name => inferInstanceAs (Decidable (name.head? = some dot))

theorem hidden_iff : name.Hidden ↔ name.Dotted ∧ ∃ cs, name = encode cs := by
  rw [← isHidden_iff, isHidden, Bool.and_eq_true, isWellFormed_iff, beq_iff_eq, and_comm, Dotted]

/-- The dot is shown exactly where it stands in front. -/
theorem head?_decodeLossy : (decodeLossy name).head? = some '.' ↔ name.Dotted := by
  have hdot : dot.toNat < 0x80 := by decide
  exact head?_decodeLossy_iff hdot

end Name

namespace Volume

variable {v : Volume} {place target : Place} {name : Name} {chain : List Name} {ext : Bytes}

/-- The names of entries lead from the directory at a place down to a file with the extension,
whatever the directories on the way are called. -/
structure Reached (v : Volume) (place : Place) (ext : Bytes) (chain : List Name) : Prop where
  proper : ∀ name ∈ chain, name.Proper
  holds : ∃ content, v.Holds place chain content
  extension : ∃ front name, chain = front ++ [name] ∧ name.HasExtension ext

theorem Below.holds (h : v.Below place chain) : ∃ content, v.Holds place chain content := by
  induction h with
  | file opens regular => exact ⟨_, _, opens.leads, regular⟩
  | inside opens _ _ _ ih =>
    obtain ⟨content, target, hleads, regular⟩ := ih
    exact ⟨content, target, opens.leads.append hleads, regular⟩

theorem Below.entered (h : v.Below place chain) : ∀ name ∈ chain.dropLast, ¬ name.Hidden := by
  induction h with
  | file => simp
  | inside _ _ entered further ih =>
    rw [List.dropLast_cons_of_ne_nil further.names.1]
    exact List.forall_mem_cons.mpr ⟨entered, ih⟩

/-- The last name is a file's, and every name in front of it is a directory's. -/
theorem below_of_holds (hne : chain ≠ []) (hproper : ∀ name ∈ chain, name.Proper)
    (hholds : ∃ content, v.Holds place chain content)
    (hentered : ∀ name ∈ chain.dropLast, ¬ name.Hidden) : v.Below place chain := by
  obtain ⟨content, target, hleads, regular⟩ := hholds
  induction chain generalizing place with
  | nil => exact absurd rfl hne
  | cons name rest ih =>
    obtain ⟨hname, hrest⟩ := List.forall_mem_cons.mp hproper
    obtain ⟨middle, opens, further⟩ := hleads.exists_opens hname
    cases rest with
    | nil =>
      cases further
      exact .file opens regular
    | cons next rest =>
      rw [List.dropLast_cons_of_ne_nil (List.cons_ne_nil next rest)] at hentered
      obtain ⟨entered, hinside⟩ := List.forall_mem_cons.mp hentered
      exact .inside opens further.at?_of_cons entered
        (ih (List.cons_ne_nil next rest) hrest hinside further)

/-- A file that is reached is left out for a hidden directory on the way, and for nothing else. -/
theorem isStylesheet_iff_reached : v.IsStylesheet place ext chain ↔
    v.Reached place ext chain ∧
      ∀ name ∈ chain.dropLast, name.Dotted → ¬ ∃ cs, name = encode cs := by
  have hhidden : (∀ name ∈ chain.dropLast, ¬ name.Hidden) ↔
      ∀ name ∈ chain.dropLast, name.Dotted → ¬ ∃ cs, name = encode cs := by
    simp only [Name.hidden_iff, not_and]
  rw [← hhidden]
  constructor
  · rintro ⟨hbelow, hext⟩
    exact ⟨⟨hbelow.proper, hbelow.holds, hext⟩, hbelow.entered⟩
  · rintro ⟨⟨hproper, hholds, hext⟩, hentered⟩
    have hne : chain ≠ [] := by
      obtain ⟨front, name, rfl, -⟩ := hext
      simp
    exact ⟨below_of_holds hne hproper hholds hentered, hext⟩

theorem Reached.split_render (h : v.Reached place ext chain) :
    split '/' (Path.render chain).toList = chain.map decodeLossy := by
  refine Path.split_render ?_ h.proper
  obtain ⟨front, name, rfl, -⟩ := h.extension
  simp

/-- The names of directories that start with a dot are those that are shown with a dot in front. -/
theorem Reached.dotted_iff (h : v.Reached place ext chain) :
    (∃ name ∈ chain.dropLast, name.Dotted) ↔
      ∃ part ∈ (split '/' (Path.render chain).toList).dropLast, part.head? = some '.' := by
  rw [h.split_render, ← List.map_dropLast]
  simp only [List.mem_map, exists_exists_and_eq_and, Name.head?_decodeLossy]

/-- Every name in the volume that starts with a dot is a text. -/
def Readable (v : Volume) : Prop :=
  ∀ place, ∀ name ∈ v.names place, name.Dotted → ∃ cs, name = encode cs

/-- If they are texts, no directory is entered whose name starts with a dot. -/
theorem IsStylesheet.not_dotted (h : v.IsStylesheet place ext chain) (hread : v.Readable) :
    ∀ name ∈ chain.dropLast, ¬ name.Dotted := by
  intro name hname hdotted
  obtain ⟨inside, hinside⟩ := h.1.names.2 name (List.dropLast_subset chain hname)
  exact h.1.entered name hname (Name.hidden_iff.mpr ⟨hdotted, hread inside name hinside hdotted⟩)

end Volume

namespace Scope

/-- No file is listed that is reached through a directory below the root, real or linked, whose name
is a text that starts with a dot, and every other file with the extension is listed. A directory
whose name starts with a dot and is no text is shown with a U+FFFD in its name, so where there are
none of these, no directory of a listed path starts with a dot. -/
theorem stylesheets_hidden (scope : Scope) (ext : String) {root : Place} {listed : List String}
    (hroot : scope.volume.Leads (Volume.origin scope.base scope.root) (Path.names scope.root) root)
    (hdirectory : scope.volume.at? root = some .directory)
    (h : scope.stylesheets ext = .ok listed) :
    (∃ chains : List (List Name), chains.Nodup ∧ listed.Perm (chains.map Path.render) ∧
      (∀ chain, chain ∈ chains ↔ scope.volume.Reached root (bytesOf ext) chain ∧
        ∀ name ∈ chain.dropLast, name.Dotted → ¬ ∃ cs, name = encode cs) ∧
      (scope.volume.Readable → ∀ chain ∈ chains, ∀ name ∈ chain.dropLast, ¬ name.Dotted)) ∧
    (∀ chain, scope.volume.Reached root (bytesOf ext) chain →
      ((∃ name ∈ chain.dropLast, name.Dotted) ↔
        ∃ part ∈ (split '/' (Path.render chain).toList).dropLast, part.head? = some '.')) ∧
    (∀ path ∈ listed, ∀ part ∈ (split '/' path.toList).dropLast,
      part.head? = some '.' → replacement ∈ part) ∧
    (scope.volume.Readable → ∀ path ∈ listed, ∀ part ∈ (split '/' path.toList).dropLast,
      part.head? ≠ some '.') := by
  obtain ⟨chains, hnodup, hmem, hperm⟩ := stylesheets_perm hroot hdirectory h
  have hreached : ∀ chain, chain ∈ chains ↔ scope.volume.Reached root (bytesOf ext) chain ∧
      ∀ name ∈ chain.dropLast, name.Dotted → ¬ ∃ cs, name = encode cs := by
    intro chain
    rw [hmem, Volume.isStylesheet_iff_reached]
  have hundotted : scope.volume.Readable →
      ∀ chain ∈ chains, ∀ name ∈ chain.dropLast, ¬ name.Dotted :=
    fun hread chain hchain => ((hmem chain).mp hchain).not_dotted hread
  refine ⟨⟨chains, hnodup, hperm, hreached, hundotted⟩, fun chain hchain => hchain.dotted_iff,
    ?_, ?_⟩
  · intro path hpath part hpart hdot
    obtain ⟨chain, hchain, rfl⟩ := List.mem_map.mp (hperm.mem_iff.mp hpath)
    obtain ⟨hchain, hnames⟩ := (hreached chain).mp hchain
    rw [hchain.split_render, ← List.map_dropLast] at hpart
    obtain ⟨name, hname, rfl⟩ := List.mem_map.mp hpart
    by_contra hnone
    exact hnames name hname (Name.head?_decodeLossy.mp hdot) ⟨_, eq_encode_of_not_mem hnone⟩
  · intro hread path hpath part hpart hdot
    obtain ⟨chain, hchain, rfl⟩ := List.mem_map.mp (hperm.mem_iff.mp hpath)
    obtain ⟨name, hname, hdotted⟩ :=
      ((hreached chain).mp hchain).1.dotted_iff.mpr ⟨part, hpart, hdot⟩
    exact hundotted hread chain hchain name hname hdotted

/-- A hidden directory, a hidden link to a directory, and a file whose name starts with a dot. -/
def hiddenSite : Volume where
  entries :=
    [([bytesOf "site"], .directory), ([bytesOf "shared"], .directory),
      ([bytesOf ".git", bytesOf "site"], .directory),
      ([bytesOf "old.css", bytesOf ".git", bytesOf "site"], .file []),
      ([bytesOf ".local.css", bytesOf "site"], .file []),
      ([bytesOf ".theme", bytesOf "site"], .link (bytesOf "../shared")),
      ([bytesOf "dark.css", bytesOf "shared"], .file [])]
  distinct := by decide +kernel
  placed := Volume.placed_of_forall (by decide +kernel)

theorem stylesheets_hidden_hiddenSite :
    let scope : Scope := ⟨hiddenSite, [], bytesOf "site"⟩
    scope.stylesheets "css" = .ok [".local.css"] ∧
    hiddenSite.Reached [bytesOf "site"] (bytesOf "css") [bytesOf ".theme", bytesOf "dark.css"] ∧
    hiddenSite.Readable ∧
    ∃ chains : List (List Name), [".local.css"].Perm (chains.map Path.render) ∧
      [bytesOf ".theme", bytesOf "dark.css"] ∉ chains ∧
      ∀ chain ∈ chains, ∀ name ∈ chain.dropLast, ¬ name.Dotted := by
  intro scope
  have htarget : scope.target [] = .ok [bytesOf "site"] := rfl
  have hdirectory : scope.volume.isDirectory [bytesOf "site"] = true := rfl
  have hnames : scope.volume.names [bytesOf "site"] =
      [bytesOf ".git", bytesOf ".local.css", bytesOf ".theme"] := by
    decide +kernel
  have hgit : scope.meet ⟨[bytesOf "site"], []⟩ [] (bytesOf ".git") = .ok .nothing := rfl
  have hlocal : scope.meet ⟨[bytesOf "site"], []⟩ [] (bytesOf ".local.css") = .ok .file := rfl
  have htheme : scope.meet ⟨[bytesOf "site"], []⟩ [] (bytesOf ".theme") = .ok .nothing := rfl
  have hfiles : scope.files = .ok [[bytesOf ".local.css"]] := by
    simp only [files, htarget, hdirectory, if_true, hnames, walk_cons, hgit, hlocal, htheme, walk]
    rfl
  have hlisted : scope.stylesheets "css" = .ok [".local.css"] :=
    stylesheets_of_files hfiles (by decide +kernel) (List.pairwise_singleton _ _)
  have hread : hiddenSite.Readable :=
    fun place name hname _ => Volume.text_of_forall (by decide +kernel) place name hname
  have hroot : scope.volume.Leads (Volume.origin scope.base scope.root) (Path.names scope.root)
      [bytesOf "site"] := .down rfl (by simp) .done
  have hshared : scope.volume.Leads [bytesOf "site"] (Path.names (bytesOf "../shared"))
      [bytesOf "shared"] := .up rfl (.down rfl (by simp) .done)
  have hdark : hiddenSite.Reached [bytesOf "site"] (bytesOf "css")
      [bytesOf ".theme", bytesOf "dark.css"] :=
    ⟨by decide, ⟨[], _, .through rfl hshared (.down rfl (by simp) .done), rfl⟩,
      [bytesOf ".theme"], bytesOf "dark.css", rfl, bytesOf "dark", by decide⟩
  obtain ⟨⟨chains, -, hperm, hmem, hundotted⟩, -, -, -⟩ :=
    stylesheets_hidden scope "css" hroot (Volume.isDirectory_iff.mp hdirectory) hlisted
  refine ⟨hlisted, hdark, hread, chains, hperm, fun hchain => ?_, hundotted hread⟩
  exact ((hmem _).mp hchain).2 (bytesOf ".theme") (by simp) (by decide) ⟨".theme".toList, rfl⟩

/-- A directory with a dot in front of a name that is no text. -/
def latinSite : Volume where
  entries :=
    [([bytesOf "d"], .directory), ([bytesOf ".caf" ++ [0xE9], bytesOf "d"], .directory),
      ([bytesOf "e.css", bytesOf ".caf" ++ [0xE9], bytesOf "d"], .file (bytesOf "$red: 1;\n"))]
  distinct := by decide +kernel
  placed := Volume.placed_of_forall (by decide +kernel)

/-- The directory is entered, and its file is listed with the dot in front of the path. -/
theorem stylesheets_latinSite :
    let scope : Scope := ⟨latinSite, [], bytesOf "d"⟩
    let inside : Name := bytesOf ".caf" ++ [0xE9]
    scope.stylesheets "css" = .ok [".caf\uFFFD/e.css"] ∧
    latinSite.Reached [bytesOf "d"] (bytesOf "css") [inside, bytesOf "e.css"] ∧
    inside.Dotted ∧ Path.render [inside, bytesOf "e.css"] = ".caf\uFFFD/e.css" ∧
    ¬ ∀ part ∈ (split '/' ".caf\uFFFD/e.css".toList).dropLast, part.head? ≠ some '.' := by
  intro scope inside
  have htarget : scope.target [] = .ok [bytesOf "d"] := rfl
  have hdirectory : scope.volume.isDirectory [bytesOf "d"] = true := rfl
  have hnames : scope.volume.names [bytesOf "d"] = [inside] := by decide +kernel
  have hinside : scope.volume.names [inside, bytesOf "d"] = [bytesOf "e.css"] := by decide +kernel
  have hentered : scope.meet ⟨[bytesOf "d"], []⟩ [] inside =
      .ok (.directory [inside, bytesOf "d"]) := rfl
  have hsheet : scope.meet ⟨[inside, bytesOf "d"], [inside]⟩ [⟨[bytesOf "d"], []⟩]
      (bytesOf "e.css") = .ok .file := rfl
  have hfiles : scope.files = .ok [[bytesOf "e.css", inside]] := by
    simp only [files, htarget, hdirectory, if_true, hnames, hinside, walk_cons, hentered, hsheet,
      walk]
    rfl
  have hreached : latinSite.Reached [bytesOf "d"] (bytesOf "css") [inside, bytesOf "e.css"] :=
    ⟨by decide, ⟨bytesOf "$red: 1;\n", _, .down rfl (by simp) (.down rfl (by simp) .done), rfl⟩,
      [inside], bytesOf "e.css", rfl, bytesOf "e", by decide⟩
  have hlisted : scope.stylesheets "css" = .ok [".caf\uFFFD/e.css"] :=
    stylesheets_of_files hfiles (by decide +kernel) (List.pairwise_singleton _ _)
  exact ⟨hlisted, hreached, by decide, by decide +kernel, by decide +kernel⟩

end Scope

end SheetLint
