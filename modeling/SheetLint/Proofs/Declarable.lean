import SheetLint.Linter
import SheetLint.Proofs.Form

/-!
# Which namespaces can be declared in

The namespace in a name is a word of ASCII letters with a capital first one, and it is compared in
lower case. So the namespaces that any name can carry are the lowercase forms of such words: two
small letters at least, and nothing else. In a file with another base name, each variable, function
and mixin is told that its name is invalid, whatever the name is.
-/

namespace SheetLint

open Text LineKind

/-- At least two characters, all of them small letters of ASCII. -/
def SmallLetters (space : List Char) : Prop := 2 ≤ space.length ∧ ∀ c ∈ space, c.isLower = true

-- the instance for lists by name: left to inference, it may be the search of all characters
instance : DecidablePred SmallLetters := fun space =>
  @instDecidableAnd _ _ inferInstance (List.decidableBAll (fun c => c.isLower = true) space)

theorem IsSpaceWord.smallLetters {found : List Char} (h : IsSpaceWord found) :
    SmallLetters (lowercase found) := by
  have hletters := h.isAlpha
  rw [lowercase_ascii h.isAscii]
  obtain ⟨c, run, rfl, -, hne, -⟩ := h
  have hpos := List.length_pos_iff.mpr hne
  refine ⟨by rw [List.length_map, List.length_cons]; omega, fun d hd => ?_⟩
  obtain ⟨b, hb, rfl⟩ := List.mem_map.mp hd
  exact isLower_toLower (hletters b hb)

/-- Small letters are spelled with a capital first one. -/
theorem SmallLetters.exists_spaceWord {space : List Char} (h : SmallLetters space) :
    ∃ found, IsSpaceWord found ∧ lowercase found = space := by
  obtain ⟨hlen, hsmall⟩ := h
  obtain ⟨c, run, rfl⟩ := List.exists_cons_of_length_pos (Nat.lt_of_succ_lt hlen)
  obtain ⟨hc, hrun⟩ := List.forall_mem_cons.mp hsmall
  have hne : run ≠ [] := by
    rintro rfl
    simp at hlen
  have hword : IsSpaceWord (c.toUpper :: run) :=
    ⟨c.toUpper, run, rfl, isUpper_toUpper hc, hne, fun d hd => isAlpha_of_isLower (hrun d hd)⟩
  have hsame : run.map Char.toLower = run :=
    (List.map_congr_left fun d hd => toLower_of_isLower (hrun d hd)).trans (List.map_id run)
  refine ⟨c.toUpper :: run, hword, ?_⟩
  rw [lowercase_ascii hword.isAscii, List.map_cons, toLower_toUpper hc, hsame]

/-- Some line of the kind is told nothing in a file of the role and the namespace. -/
def Declarable (kind : LineKind) (role : Role) (space : String) : Prop :=
  ∃ number source, (Line.ofString number source).kind = some kind ∧
    (Line.ofString number source).message? role space = none

theorem declarable_iff_form {kind : LineKind} {role : Role} {shape : Shape} {fault : Fault}
    (hrule : Rule.find? kind role = some (.shaped shape fault)) (space : String) :
    Declarable kind role space ↔
      ∃ cs, Opens (trim cs) kind ∧ shape.Form space.toList (trim cs) (trim cs) := by
  have hiff : ∀ number source, (Line.ofString number source).kind = some kind →
      ((Line.ofString number source).message? role space = none ↔
        shape.Form space.toList (trim source.toList) (trim source.toList)) := by
    intro number source hkind
    have haccepts : shape.accepts (Line.ofString number source) space = true ↔
        shape.Form space.toList (trim source.toList) (trim source.toList) :=
      Shape.accepts_ofString_iff
    rw [Line.message?_of_shaped hkind hrule Iff.rfl, ← haccepts]
    simp
  constructor
  · rintro ⟨number, source, hkind, hnone⟩
    exact ⟨source.toList, Line.kind_ofString_eq_some_iff.mp hkind, (hiff _ _ hkind).mp hnone⟩
  · rintro ⟨cs, hopens, hform⟩
    have hcs : (String.ofList cs).toList = cs := String.toList_ofList
    have hkind : (Line.ofString 1 (String.ofList cs)).kind = some kind :=
      Line.kind_ofString_eq_some_iff.mpr (hcs.symm ▸ hopens)
    exact ⟨1, String.ofList cs, hkind, (hiff _ _ hkind).mpr (hcs.symm ▸ hform)⟩

theorem declarable_of_form {kind : LineKind} {role : Role} {shape : Shape} {fault : Fault}
    {space : String} {first last : Char} {inner : List Char}
    (hrule : Rule.find? kind role = some (.shaped shape fault)) (hfirst : isBlank first = false)
    (hlast : isBlank last = false) (hopens : Opens (first :: (inner ++ [last])) kind)
    (hform : shape.Form space.toList (first :: (inner ++ [last])) (first :: (inner ++ [last]))) :
    Declarable kind role space := by
  rw [← trim_of_ends inner hfirst hlast] at hopens hform
  exact (declarable_iff_form hrule space).mpr ⟨_, hopens, hform⟩

/-- A function or mixin line that declares the name and nothing else. -/
theorem exists_declares_of_clear {kind : LineKind} (hkind : kind ∈ callables)
    {name : List Char} (hne : name ≠ []) (hclear : ∀ c ∈ name, c ≠ '(' ∧ isBlank c = false) :
    ∃ inner, Opens ('@' :: (inner ++ ['('])) kind ∧
      Callable.Declares ('@' :: (inner ++ ['('])) name := by
  have hend : ∀ c, ['('].head? = some c → c = '(' ∨ isBlank c = true := by
    rintro c ⟨⟩
    exact Or.inl rfl
  rcases mem_callables_iff.mp hkind with rfl | rfl
  · exact ⟨"function ".toList ++ name, ⟨name ++ ['('], rfl⟩, "@function ".toList,
      List.mem_cons_self, ['('], rfl, hne, hclear, hend⟩
  · exact ⟨"mixin ".toList ++ name, ⟨name ++ ['('], rfl⟩, "@mixin ".toList,
      List.mem_cons_of_mem _ List.mem_cons_self, ['('], rfl, hne, hclear, hend⟩

section Namespaces

variable {space : String} (owner : Owner)

theorem declarable_variableDecl_iff :
    Declarable .variableDecl owner.role space ↔ SmallLetters space.toList := by
  constructor
  · intro h
    obtain ⟨cs, -, found, own, rest, ⟨-, hspace, -⟩, hlow⟩ :=
      (declarable_iff_form (Rule.find?_ownedVariable owner) space).mp h
    exact hlow ▸ hspace.smallLetters
  · intro h
    -- the line `$cName_aa:`, with the namespace spelled as a word
    obtain ⟨found, hspace, hlow⟩ := h.exists_spaceWord
    have hnamed : Variable.Named owner.letter
        ('$' :: ((owner.letter :: (found ++ "_aa".toList)) ++ [':'])) found "aa".toList [] :=
      ⟨by simp, hspace, by decide⟩
    exact declarable_of_form (Rule.find?_ownedVariable owner) (by decide) (by decide) hnamed.opens
      ⟨_, _, _, hnamed, hlow⟩

theorem declarable_callable_iff {kind : LineKind} (hkind : kind ∈ callables) :
    Declarable kind owner.role space ↔ SmallLetters space.toList := by
  obtain ⟨fault, hrule⟩ := Rule.exists_find?_ownedDeclaration owner hkind
  constructor
  · intro h
    obtain ⟨cs, -, name, -, found, own, -, hspace, -, hlow⟩ :=
      (declarable_iff_form hrule space).mp h
    exact hlow ▸ hspace.smallLetters
  · intro h
    obtain ⟨found, hspace, hlow⟩ := h.exists_spaceWord
    have hown : IsOwnWord "aa".toList := by decide
    have hnamed : Callable.Named owner.letter space.toList
        (owner.letter :: (found ++ '_' :: "aa".toList)) :=
      ⟨found, _, rfl, hspace, hown, hlow⟩
    have hclear : ∀ c ∈ owner.letter :: (found ++ '_' :: "aa".toList),
        c ≠ '(' ∧ isBlank c = false := by
      intro c hc
      have hname := mem_owned_name hspace hown c hc
      refine ⟨?_, not_isBlank_of_nameChar hname⟩
      rintro rfl
      exact absurd hname (by decide)
    obtain ⟨inner, hopens, hdeclares⟩ :=
      exists_declares_of_clear hkind (List.cons_ne_nil _ _) hclear
    exact declarable_of_form hrule (by decide) (by decide) hopens ⟨_, hdeclares, hnamed⟩

theorem declarable_placeholder_iff :
    Declarable .placeholder .module space ↔ SmallLetters space.toList := by
  have hrule : Rule.find? .placeholder .module =
      some (.shaped .modulePlaceholder .placeholderName) := rfl
  constructor
  · intro h
    obtain ⟨cs, -, found, own, stop, rest, -, hspace, -, -, hlow⟩ :=
      (declarable_iff_form hrule space).mp h
    exact hlow ▸ hspace.smallLetters
  · intro h
    obtain ⟨found, hspace, hlow⟩ := h.exists_spaceWord
    have hnamed : Placeholder.Named 'm' space.toList
        ('%' :: (('m' :: (found ++ "_aa".toList)) ++ ['{'])) :=
      ⟨found, "aa".toList, '{', [], by simp, hspace, by decide, by decide, hlow⟩
    exact declarable_of_form hrule (by decide) (by decide) hnamed.opens hnamed

end Namespaces

/-- The kinds of lines whose names carry the namespace in every component and module. -/
def namedKinds : List LineKind := .variableDecl :: callables

theorem declarable_iff {kind : LineKind} (hkind : kind ∈ namedKinds) (owner : Owner)
    (space : String) : Declarable kind owner.role space ↔ SmallLetters space.toList := by
  rcases List.mem_cons.mp hkind with rfl | hkind
  · exact declarable_variableDecl_iff owner
  · exact declarable_callable_iff owner hkind

theorem exists_violation_of_not_declarable {content : String} {line : Line} {kind : LineKind}
    {role : Role} {space : String} (h : ¬ Declarable kind role space) (hline : line ∈ scan content)
    (hkind : line.kind = some kind) :
    ∃ violation ∈ lintContent content role space, violation.line = line.number := by
  obtain ⟨⟨number, source⟩, -, rfl⟩ := List.mem_map.mp hline
  cases hfault : (Line.ofString number source).fault? role space with
  | none =>
    have hnone : (Line.ofString number source).message? role space = none := by
      rw [Line.message?, hfault, Option.map_none]
    exact absurd ⟨number, source, hkind, hnone⟩ h
  | some fault =>
    refine ⟨⟨number, fault.message⟩, List.mem_filterMap.mpr ⟨_, hline, ?_⟩, rfl⟩
    rw [hfault]
    rfl

/-- A component or a module can declare a variable, a function or a mixin exactly if its base name
is made of two small letters or more, and a module can declare a placeholder under the same
condition. In all other files each line of those kinds is told something. -/
theorem declarable_exact :
    (∀ space : String,
      (∀ owner : Owner, ∀ kind ∈ namedKinds,
        (Declarable kind owner.role space ↔ SmallLetters space.toList)) ∧
      (Declarable .placeholder .module space ↔ SmallLetters space.toList)) ∧
    ∀ (owner : Owner) (path ext content : String), ¬ SmallLetters (baseName path ext).toList →
      ∀ line ∈ scan content, ∀ kind ∈ namedKinds, line.kind = some kind →
        ∃ violation ∈ (Stylesheet.ofContent path owner.role content ext).lint,
          violation.line = line.number := by
  refine ⟨fun space => ⟨fun owner kind hkind => declarable_iff hkind owner space,
    declarable_placeholder_iff⟩, ?_⟩
  intro owner path ext content hname line hline kind hmem hkind
  exact exists_violation_of_not_declarable (mt (declarable_iff hmem owner _).mp hname) hline hkind

theorem declarable_exact_of_navBar :
    Declarable .mixinDecl .module "card" ∧ Declarable .placeholder .module "card" ∧
    ¬ Declarable .functionDecl .component "nav-bar" ∧
    baseName "component/nav-bar.scss" "scss" = "nav-bar" ∧
    ∃ violation ∈
      (Stylesheet.ofContent "component/nav-bar.scss" .component "\n$cNavBar_x: 1px;" "scss").lint,
      violation.line = 2 := by
  obtain ⟨hspaces, hfiles⟩ := declarable_exact
  have hname : baseName "component/nav-bar.scss" "scss" = "nav-bar" := by decide +kernel
  have hcard : SmallLetters "card".toList := by decide
  have hdash : ¬ SmallLetters "nav-bar".toList := by decide
  have hline : Line.ofString 2 "$cNavBar_x: 1px;" ∈ scan "\n$cNavBar_x: 1px;" := by decide +kernel
  have hfunction := (hspaces "nav-bar").1 .component .functionDecl (by decide)
  exact ⟨((hspaces "card").1 .module .mixinDecl (by decide)).mpr hcard,
    (hspaces "card").2.mpr hcard, mt hfunction.mp hdash, hname,
    hfiles .component _ _ _ (hname ▸ hdash) _ hline .variableDecl (by decide) (by decide +kernel)⟩

end SheetLint
