import SheetLint.Proofs.Words

/-!
# Placeholders

Three forms of a placeholder, as splits of the line's text. The form with a name of its own and the
bare form of a component exclude each other: the part of the text that is compared with the
namespace is the same in both, and what follows it is an underscore in one and a terminator in the
other. So it does not matter which of the two a component asks for first.
-/

namespace SheetLint

open Text

namespace Placeholder

/-- The characters that end a placeholder. -/
def terminators : List Char := ['{', ',', ':', '.', ' ']

/-- A layout's placeholder: `l` and a capitalized word. -/
def OfLayout (text : List Char) : Prop :=
  ∃ word stop rest, text = '%' :: 'l' :: (word ++ stop :: rest) ∧
    IsWord Char.isUpper Char.isAlphanum word ∧ stop ∈ terminators

/-- A placeholder with a name of its own behind the namespace. -/
def Named (letter : Char) (space text : List Char) : Prop :=
  ∃ found own stop rest, text = '%' :: letter :: (found ++ '_' :: (own ++ stop :: rest)) ∧
    IsSpaceWord found ∧ IsOwnWord own ∧ stop ∈ terminators ∧ lowercase found = space

/-- A component's placeholder that is the namespace alone. -/
def Bare (space text : List Char) : Prop :=
  ∃ head stop rest, text = '%' :: 'c' :: (head ++ stop :: rest) ∧ begins Char.isUpper head = true ∧
    byteLength head = byteLength space ∧ lowercase head = space ∧ stop ∈ terminators

theorem begins_endsPlaceholder_iff {cs : List Char} :
    begins endsPlaceholder cs = true ↔ ∃ stop rest, cs = stop :: rest ∧ stop ∈ terminators := by
  simp only [begins_eq_true_iff, endsPlaceholder_iff, terminators]

theorem not_begins_isAlphanum {stop : Char} (h : stop ∈ terminators) (rest : List Char) :
    begins Char.isAlphanum (stop :: rest) = false :=
  not_isAlphanum_of_endsPlaceholder (endsPlaceholder_iff.mpr h)

theorem isLayoutPlaceholder_iff {text : List Char} :
    Shape.isLayoutPlaceholder text = true ↔ OfLayout text := by
  constructor
  · intro h
    unfold Shape.isLayoutPlaceholder at h
    split at h
    · next cs =>
      split at h
      · next word rest hword =>
        obtain ⟨hw, rfl, -⟩ := word?_eq_some_iff.mp hword
        obtain ⟨stop, rest, rfl, hstop⟩ := begins_endsPlaceholder_iff.mp h
        exact ⟨word, stop, rest, rfl, hw, hstop⟩
      · simp at h
    · simp at h
  · rintro ⟨word, stop, rest, rfl, hw, hstop⟩
    have hword := word?_eq_some_iff.mpr ⟨hw, rfl, not_begins_isAlphanum hstop rest⟩
    have hbegins := begins_endsPlaceholder_iff.mpr ⟨stop, rest, rfl, hstop⟩
    simpa only [Shape.isLayoutPlaceholder, hword] using hbegins

theorem isNamespacedPlaceholder_iff {owner : Owner} {space text : List Char} :
    Shape.isNamespacedPlaceholder owner space text = true ↔ Named owner.letter space text := by
  constructor
  · intro h
    unfold Shape.isNamespacedPlaceholder at h
    split at h
    · next letter cs =>
      obtain ⟨hletter, hname⟩ := Bool.and_eq_true_iff.mp h
      split at hname
      · next found rest hfound =>
        obtain ⟨own, hspace, hown, rfl, -⟩ := namespaced?_eq_some_iff.mp hfound
        obtain ⟨hbegins, hlow⟩ := Bool.and_eq_true_iff.mp hname
        obtain ⟨stop, rest, rfl, hstop⟩ := begins_endsPlaceholder_iff.mp hbegins
        have hl : letter = owner.letter := by simpa using hletter
        exact ⟨found, own, stop, rest, by rw [hl], hspace, hown, hstop, by simpa using hlow⟩
      · simp at hname
    · simp at h
  · rintro ⟨found, own, stop, rest, rfl, hspace, hown, hstop, hlow⟩
    have hfound := namespaced?_eq_some_iff.mpr
      ⟨own, hspace, hown, rfl, not_begins_isAlphanum hstop rest⟩
    have hbegins := begins_endsPlaceholder_iff.mpr ⟨stop, rest, rfl, hstop⟩
    simp [Shape.isNamespacedPlaceholder, hfound, hbegins, hlow]

/-- What stands alone for the namespace, whatever its first letter. -/
theorem isBareNamespace_iff {space cs : List Char} :
    Shape.isBareNamespace space cs = true ↔ ∃ head stop rest, cs = head ++ stop :: rest ∧
      byteLength head = byteLength space ∧ lowercase head = space ∧ stop ∈ terminators := by
  constructor
  · intro h
    unfold Shape.isBareNamespace at h
    split at h
    · next rest hafter =>
      obtain ⟨head, rfl, hlen, hlow⟩ := afterNamespace?_eq_some_iff.mp hafter
      obtain ⟨stop, rest, rfl, hstop⟩ := begins_endsPlaceholder_iff.mp h
      exact ⟨head, stop, rest, rfl, hlen, hlow, hstop⟩
    · simp at h
  · rintro ⟨head, stop, rest, rfl, hlen, hlow, hstop⟩
    have hafter : afterNamespace? space (head ++ stop :: rest) = some (stop :: rest) :=
      afterNamespace?_eq_some_iff.mpr ⟨head, rfl, hlen, hlow⟩
    have hbegins := begins_endsPlaceholder_iff.mpr ⟨stop, rest, rfl, hstop⟩
    simpa only [Shape.isBareNamespace, hafter] using hbegins

/-- Behind a name of its own the namespace does not stand alone. The namespace in the name is an
ASCII word, so its lowercase form has as many bytes, and the comparison stops at the underscore. -/
theorem not_isBareNamespace_of_named {found space : List Char} (own rest : List Char) (stop : Char)
    (hspace : IsSpaceWord found) (hlow : lowercase found = space) :
    Shape.isBareNamespace space (found ++ '_' :: (own ++ stop :: rest)) = false := by
  have hlen : byteLength found = byteLength space := by
    rw [← hlow, byteLength_lowercase_ascii hspace.isAscii]
  have hafter : afterNamespace? space (found ++ '_' :: (own ++ stop :: rest)) =
      some ('_' :: (own ++ stop :: rest)) :=
    afterNamespace?_eq_some_iff.mpr ⟨found, rfl, hlen, hlow⟩
  rw [Shape.isBareNamespace, hafter]
  rfl

theorem not_bare_of_named {space text : List Char} (hnamed : Named 'c' space text) :
    ¬ Bare space text := by
  obtain ⟨found, own, stop, rest, rfl, hspace, -, -, hlow⟩ := hnamed
  rintro ⟨head, stop', rest', htext, -, hlen, hlow', hstop⟩
  have hcs : found ++ '_' :: (own ++ stop :: rest) = head ++ stop' :: rest' := by
    simpa using htext
  have hbare := isBareNamespace_iff.mpr ⟨head, stop', rest', hcs, hlen, hlow', hstop⟩
  rw [not_isBareNamespace_of_named _ _ _ hspace hlow] at hbare
  exact Bool.false_ne_true hbare

theorem isComponentPlaceholder_iff {space text : List Char} :
    Shape.isComponentPlaceholder space text = true ↔ Named 'c' space text ∨ Bare space text := by
  constructor
  · intro h
    unfold Shape.isComponentPlaceholder at h
    split at h
    · next cs =>
      split at h
      · next hbare =>
        obtain ⟨head, stop, rest, rfl, hlen, hlow, hstop⟩ := isBareNamespace_iff.mp hbare
        have hne : head ≠ [] := by
          rintro rfl
          have hupper : stop.isUpper = true := h
          have halnum := isAlphanum_of_isAlpha (isAlpha_of_isUpper hupper)
          rw [not_isAlphanum_of_endsPlaceholder (endsPlaceholder_iff.mpr hstop)] at halnum
          exact Bool.false_ne_true halnum
        rw [begins_append hne] at h
        exact Or.inr ⟨head, stop, rest, rfl, h, hlen, hlow, hstop⟩
      · exact Or.inl (isNamespacedPlaceholder_iff.mp h)
    · simp at h
  · rintro (hnamed | ⟨head, stop, rest, rfl, hupper, hlen, hlow, hstop⟩)
    · obtain ⟨found, own, stop, rest, rfl, hspace, hown, hstop, hlow⟩ := hnamed
      have hbare := not_isBareNamespace_of_named own rest stop hspace hlow
      rw [Shape.isComponentPlaceholder, hbare, if_neg Bool.false_ne_true]
      exact isNamespacedPlaceholder_iff.mpr
        ⟨found, own, stop, rest, rfl, hspace, hown, hstop, hlow⟩
    · have hbare := isBareNamespace_iff.mpr ⟨head, stop, rest, rfl, hlen, hlow, hstop⟩
      have hne : head ≠ [] := by
        rintro rfl
        simp [begins] at hupper
      rw [Shape.isComponentPlaceholder, if_pos hbare, begins_append hne]
      exact hupper

open Classical in
/-- A placeholder is out of place in half of the roles, and has a form of the role in the others.
The order in which a component asks for its two forms loses no line, and each cut of a text on the
way either lies between two characters or does not exist. -/
theorem message?_placeholder (number : Nat) (source space : String)
    (h : (Line.ofString number source).kind = some .placeholder) :
    let line := Line.ofString number source
    let text := trim source.toList
    (∀ role ∈ [Role.config, .mixin, .style],
      line.message? role space = some "placeholder selectors not permitted here") ∧
    (line.message? .layout space =
      if OfLayout text then none else some "invalid placeholder selector name") ∧
    (line.message? .module space =
      if Named 'm' space.toList text then none else some "invalid placeholder selector name") ∧
    (line.message? .component space =
      if Named 'c' space.toList text ∨ Bare space.toList text then none
      else some "invalid placeholder selector name") ∧
    ¬ (Bare space.toList text ∧ Named 'c' space.toList text) ∧
    (∀ cs, text = '%' :: 'c' :: cs → Shape.isBareNamespace space.toList cs = true →
      Shape.isNamespacedPlaceholder .component space.toList text = false) ∧
    (∀ cs, cutAtByte? 2 ('%' :: 'c' :: cs) = some (['%', 'c'], cs)) ∧
    ∀ cs, (∃ head rest, cutAtByte? (bytesOf space).length cs = some (head, rest) ∧
        cs = head ++ rest ∧ (encode head).length = (bytesOf space).length) ∨
      (cutAtByte? (bytesOf space).length cs = none ∧
        ∀ head, head <+: cs → (encode head).length ≠ (bytesOf space).length) := by
  intro line text
  have htext : line.text.toList = text := Line.text_ofString number source
  refine ⟨?_, ?_, ?_, ?_, ?_, ?_, ?_, cutAtByte?_of_length_encode _⟩
  · intro role hrole
    have hrule : Rule.find? .placeholder role = some (.forbidden .placeholderMisplaced) := by
      simp only [List.mem_cons, List.not_mem_nil, or_false] at hrole
      rcases hrole with rfl | rfl | rfl <;> rfl
    exact Line.message?_of_forbidden h hrule space
  · have hrule : Rule.find? .placeholder .layout =
        some (.shaped .layoutPlaceholder .placeholderName) := rfl
    apply Line.message?_of_shaped h hrule
    rw [Shape.accepts, htext]
    exact isLayoutPlaceholder_iff
  · have hrule : Rule.find? .placeholder .module =
        some (.shaped .modulePlaceholder .placeholderName) := rfl
    apply Line.message?_of_shaped h hrule
    rw [Shape.accepts, htext]
    exact isNamespacedPlaceholder_iff
  · have hrule : Rule.find? .placeholder .component =
        some (.shaped .componentPlaceholder .placeholderName) := rfl
    apply Line.message?_of_shaped h hrule
    rw [Shape.accepts, htext]
    exact isComponentPlaceholder_iff
  · rintro ⟨hbare, hnamed⟩
    exact not_bare_of_named hnamed hbare
  · intro cs hcs hbare
    rw [← Bool.not_eq_true]
    intro hnamed
    obtain ⟨found, own, stop, rest, he, hspace, -, -, hlow⟩ := isNamespacedPlaceholder_iff.mp hnamed
    rw [hcs] at he
    have hcs' : cs = found ++ '_' :: (own ++ stop :: rest) := by
      simp only [List.cons.injEq] at he
      exact he.2.2
    rw [hcs', not_isBareNamespace_of_named _ _ _ hspace hlow] at hbare
    exact Bool.false_ne_true hbare
  · intro cs
    exact cutAtByte?_eq_some_iff.mpr ⟨rfl, rfl⟩

theorem message?_placeholder_of_cafe :
    let line := Line.ofString 3 "  %cCAFÉ:hover,\t"
    line.kind = some .placeholder ∧
    line.message? .style "café" = some "placeholder selectors not permitted here" ∧
    line.message? .component "café" = none ∧
    line.message? .module "café" = some "invalid placeholder selector name" := by
  have hkind : (Line.ofString 3 "  %cCAFÉ:hover,\t").kind = some .placeholder := by
    decide +kernel
  obtain ⟨hforbidden, -, hmodule, hcomponent, -⟩ := message?_placeholder 3 _ "café" hkind
  have hbare : Bare "café".toList (trim "  %cCAFÉ:hover,\t".toList) :=
    ⟨"CAFÉ".toList, ':', "hover,".toList, by decide +kernel, by decide +kernel,
      by decide +kernel, by decide +kernel, by decide⟩
  refine ⟨hkind, hforbidden .style (by simp), hcomponent.trans (if_pos (Or.inr hbare)),
    hmodule.trans (if_neg ?_)⟩
  rintro ⟨found, own, stop, rest, htext, -⟩
  have hm : (trim "  %cCAFÉ:hover,\t".toList).getD 1 ' ' = 'm' := by rw [htext]; rfl
  exact absurd hm (by decide +kernel)

end Placeholder

end SheetLint
