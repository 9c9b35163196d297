import Mathlib.Data.Option.Basic
import SheetLint.Proofs.Words

/-!
# Functions and mixins

What a line declares is the longest run behind its keyword, and the whole of that run has to be a
name. So whatever is glued to a name becomes a part of it: the run is ended by an opening
parenthesis or a blank and by nothing else. Functions and mixins differ in their messages alone.
-/

namespace SheetLint

open Text

namespace Callable

/-- The keyword and a single space, the longest run of characters that are neither an opening
parenthesis nor blanks, not empty, and the rest. -/
def Declares (text name : List Char) : Prop :=
  ∃ keyword ∈ ["@function ".toList, "@mixin ".toList], ∃ rest, text = keyword ++ (name ++ rest) ∧
    name ≠ [] ∧ (∀ c ∈ name, c ≠ '(' ∧ isBlank c = false) ∧
    ∀ c, rest.head? = some c → c = '(' ∨ isBlank c = true

/-- A layout's function or mixin: `l` and a capitalized word. -/
def OfLayout (name : List Char) : Prop :=
  ∃ word, name = 'l' :: word ∧ IsWord Char.isUpper Char.isAlphanum word

/-- A name of its own behind the namespace. -/
def Named (letter : Char) (space name : List Char) : Prop :=
  ∃ found own, name = letter :: (found ++ '_' :: own) ∧ IsSpaceWord found ∧ IsOwnWord own ∧
    lowercase found = space

theorem isNameChar_iff {c : Char} :
    (c != '(' && !isBlank c) = true ↔ c ≠ '(' ∧ isBlank c = false := by
  simp

theorem not_begins_isNameChar_iff {rest : List Char} :
    begins (fun c => c != '(' && !isBlank c) rest = false ↔
      ∀ c, rest.head? = some c → c = '(' ∨ isBlank c = true := by
  cases rest with
  | nil => simp [begins]
  | cons c rest =>
    simp only [begins, List.head?_cons, Option.some.injEq, forall_eq', Bool.and_eq_false_iff,
      bne_eq_false_iff_eq, Bool.not_eq_false']

/-- The two keywords differ in their second character, so no text begins with both. -/
theorem afterKeyword_eq_some_iff {text rest : List Char} :
    (afterStart? "@function ".toList text <|> afterStart? "@mixin ".toList text) = some rest ↔
      ∃ keyword ∈ ["@function ".toList, "@mixin ".toList], text = keyword ++ rest := by
  rw [Option.orElse_eq_some, afterStart?_eq_some_iff, afterStart?_eq_some_iff]
  constructor
  · rintro (htext | ⟨-, htext⟩)
    · exact ⟨_, List.mem_cons_self, htext⟩
    · exact ⟨_, List.mem_cons_of_mem _ List.mem_cons_self, htext⟩
  · rintro ⟨keyword, hkeyword, rfl⟩
    simp only [List.mem_cons, List.not_mem_nil, or_false] at hkeyword
    rcases hkeyword with rfl | rfl
    · exact Or.inl rfl
    · exact Or.inr ⟨rfl, rfl⟩

theorem declaredName?_eq_some_iff {text name : List Char} :
    declaredName? text = some name ↔ Declares text name := by
  constructor
  · intro h
    rw [declaredName?] at h
    split at h
    · next behind hbehind =>
      obtain ⟨keyword, hkeyword, rfl⟩ := afterKeyword_eq_some_iff.mp hbehind
      split at h
      · simp at h
      · next c cs hrun =>
        cases h
        refine ⟨keyword, hkeyword, behind.dropWhile fun c => c != '(' && !isBlank c, ?_, by simp,
          ?_, not_begins_isNameChar_iff.mp (begins_dropWhile _ _)⟩
        · rw [← hrun, List.takeWhile_append_dropWhile]
        · rw [← hrun]
          exact fun c hc => isNameChar_iff.mp (all_takeWhile c hc)
    · simp at h
  · rintro ⟨keyword, hkeyword, rest, rfl, hne, hname, hrest⟩
    have hrun : (name ++ rest).takeWhile (fun c => c != '(' && !isBlank c) = name :=
      takeWhile_append_of_begins (fun c hc => isNameChar_iff.mpr (hname c hc))
        (not_begins_isNameChar_iff.mpr hrest)
    rw [declaredName?, afterKeyword_eq_some_iff.mpr ⟨keyword, hkeyword, rfl⟩]
    simp only [hrun]
    cases name with
    | nil => exact absurd rfl hne
    | cons c cs => rfl

theorem isAnyDeclaration_iff {text : List Char} :
    Shape.isAnyDeclaration text = true ↔ ∃ name, Declares text name := by
  simp only [Shape.isAnyDeclaration, Option.isSome_iff_exists, declaredName?_eq_some_iff]

theorem isLayoutDeclaration_iff {text : List Char} :
    Shape.isLayoutDeclaration text = true ↔ ∃ name, Declares text name ∧ OfLayout name := by
  constructor
  · intro h
    rw [Shape.isLayoutDeclaration] at h
    split at h
    · next cs hdeclared =>
      split at h
      · next word hword =>
        obtain ⟨hw, rfl, -⟩ := word?_eq_some_iff.mp hword
        rw [List.append_nil] at hdeclared
        exact ⟨_, declaredName?_eq_some_iff.mp hdeclared, word, rfl, hw⟩
      · simp at h
    · simp at h
  · rintro ⟨name, hname, word, rfl, hw⟩
    have hword :=
      word?_eq_some_iff.mpr ⟨hw, (List.append_nil word).symm, (rfl : begins _ [] = false)⟩
    simp [Shape.isLayoutDeclaration, declaredName?_eq_some_iff.mpr hname, hword]

theorem isOwnedDeclaration_iff {owner : Owner} {space text : List Char} :
    Shape.isOwnedDeclaration owner space text = true ↔
      ∃ name, Declares text name ∧ Named owner.letter space name := by
  constructor
  · intro h
    rw [Shape.isOwnedDeclaration] at h
    split at h
    · next letter cs hdeclared =>
      obtain ⟨hletter, hname⟩ := Bool.and_eq_true_iff.mp h
      split at hname
      · next found hfound =>
        obtain ⟨own, hspace, hown, rfl, -⟩ := namespaced?_eq_some_iff.mp hfound
        have hl : letter = owner.letter := by simpa using hletter
        rw [List.append_nil, hl] at hdeclared
        exact ⟨_, declaredName?_eq_some_iff.mp hdeclared, found, own, rfl, hspace, hown,
          by simpa using hname⟩
      · simp at hname
    · simp at h
  · rintro ⟨name, hname, found, own, rfl, hspace, hown, hlow⟩
    have hfound : namespaced? (found ++ '_' :: own) = some (found, []) :=
      namespaced?_eq_some_iff.mpr ⟨own, hspace, hown, by rw [List.append_nil], rfl⟩
    simp [Shape.isOwnedDeclaration, declaredName?_eq_some_iff.mpr hname, hfound, hlow]

/-- The two kinds of callables, each with what is said of one that is out of place and of one that
is not named well. -/
def messages : List (LineKind × String × String) :=
  [(.functionDecl, "functions not permitted here", "invalid function name"),
    (.mixinDecl, "mixins not permitted here", "invalid mixin name")]

/-- Both kinds have the rules of callables, with faults of their own. -/
theorem exists_faults {kind : LineKind} {misplaced misnamed : String}
    (h : (kind, misplaced, misnamed) ∈ messages) :
    ∃ first second : Fault, first.message = misplaced ∧ second.message = misnamed ∧
      ∀ role, Rule.find? kind role = some (Rule.ofCallable first second role) := by
  simp only [messages, List.mem_cons, List.not_mem_nil, or_false, Prod.mk.injEq] at h
  rcases h with ⟨rfl, rfl, rfl⟩ | ⟨rfl, rfl, rfl⟩
  · exact ⟨.functionMisplaced, .functionName, rfl, rfl, fun role => by cases role <;> rfl⟩
  · exact ⟨.mixinMisplaced, .mixinName, rfl, rfl, fun role => by cases role <;> rfl⟩

open Classical in
/-- A declaration is read off any text alike. A function or mixin is out of place where variables
are set and where styles are, only has to declare something in a mixin, and has a name of the role
elsewhere. -/
theorem message?_callable :
    (∀ text name, declaredName? text = some name ↔ Declares text name) ∧
    ∀ (number : Nat) (source space : String) (kind : LineKind) (misplaced misnamed : String),
      (kind, misplaced, misnamed) ∈ messages →
      (Line.ofString number source).kind = some kind →
        let line := Line.ofString number source
        let text := trim source.toList
        (∀ role ∈ [Role.config, .style], line.message? role space = some misplaced) ∧
        (line.message? .mixin space =
          if ∃ name, Declares text name then none else some misnamed) ∧
        (line.message? .layout space =
          if ∃ name, Declares text name ∧ OfLayout name then none else some misnamed) ∧
        (line.message? .component space =
          if ∃ name, Declares text name ∧ Named 'c' space.toList name then none
          else some misnamed) ∧
        (line.message? .module space =
          if ∃ name, Declares text name ∧ Named 'm' space.toList name then none
          else some misnamed) := by
  refine ⟨fun _ _ => declaredName?_eq_some_iff, ?_⟩
  intro number source space kind misplaced misnamed hmessages hkind line text
  have htext : line.text.toList = text := Line.text_ofString number source
  obtain ⟨first, second, rfl, rfl, hrule⟩ := exists_faults hmessages
  refine ⟨?_, ?_, ?_, ?_, ?_⟩
  · intro role hrole
    have hforbidden : Rule.find? kind role = some (.forbidden first) := by
      rw [hrule]
      simp only [List.mem_cons, List.not_mem_nil, or_false] at hrole
      rcases hrole with rfl | rfl <;> rfl
    exact Line.message?_of_forbidden hkind hforbidden space
  · apply Line.message?_of_shaped hkind (hrule .mixin)
    rw [Shape.accepts, htext]
    exact isAnyDeclaration_iff
  · apply Line.message?_of_shaped hkind (hrule .layout)
    rw [Shape.accepts, htext]
    exact isLayoutDeclaration_iff
  · apply Line.message?_of_shaped hkind (hrule .component)
    rw [Shape.accepts, htext]
    exact isOwnedDeclaration_iff
  · apply Line.message?_of_shaped hkind (hrule .module)
    rw [Shape.accepts, htext]
    exact isOwnedDeclaration_iff

theorem message?_callable_of_primary :
    let line := Line.ofString 9 "@mixin cButton_primary($x)"
    line.kind = some .mixinDecl ∧
    declaredName? "@mixin cButton_primary($x)".toList = some "cButton_primary".toList ∧
    line.message? .style "button" = some "mixins not permitted here" ∧
    line.message? .mixin "button" = none ∧
    line.message? .component "button" = none ∧
    line.message? .module "button" = some "invalid mixin name" := by
  have hkind : (Line.ofString 9 "@mixin cButton_primary($x)").kind = some .mixinDecl := by
    decide +kernel
  have htext : trim "@mixin cButton_primary($x)".toList =
      "@mixin cButton_primary($x)".toList := by
    decide +kernel
  have hdeclared : declaredName? "@mixin cButton_primary($x)".toList =
      some "cButton_primary".toList := by
    decide +kernel
  have hdeclares := (message?_callable.1 _ _).mp hdeclared
  obtain ⟨hforbidden, hmixin, -, hcomponent, hmodule⟩ := message?_callable.2 9
    "@mixin cButton_primary($x)" "button" .mixinDecl "mixins not permitted here"
    "invalid mixin name" (by decide) hkind
  rw [htext] at hmixin hcomponent hmodule
  have hnamed : Named 'c' "button".toList "cButton_primary".toList :=
    ⟨"Button".toList, "primary".toList, by decide +kernel, by decide +kernel,
      by decide +kernel, by decide +kernel⟩
  refine ⟨hkind, hdeclared, hforbidden .style (by simp), hmixin.trans (if_pos ⟨_, hdeclares⟩),
    hcomponent.trans (if_pos ⟨_, hdeclares, hnamed⟩), hmodule.trans (if_neg ?_)⟩
  rintro ⟨name, hname, found, own, rfl, -⟩
  have hsame := hdeclared.symm.trans ((message?_callable.1 _ _).mpr hname)
  exact absurd (congrArg (fun cs => cs.getD [] |>.head?) hsame) (by simp)

end Callable

end SheetLint
