import SheetLint.Proofs.Classification
import SheetLint.Proofs.Placeholder
import SheetLint.Proofs.Text.Lowercase

/-!
# The name of the file as a placeholder

A component's placeholder may be the namespace of its file in any spelling with a capital first
letter. The namespace is kept in lower case, and the comparison cuts as many bytes off the text as
the namespace has. So of the spellings of a namespace, those are accepted that have as many bytes as
their lowercase form. All spellings in ASCII do, and others need not: the dotted capital I has
fewer bytes than its lowercase form, and the Kelvin sign has more.
-/

namespace SheetLint

open Text

namespace Placeholder

variable {name rest : List Char} {stop : Char}

/-- Behind a spelling of the namespace there is a terminator, so no name of its own. -/
theorem not_named_of_spelling (hstop : stop ∈ terminators) :
    ¬ Named 'c' (lowercase name) ('%' :: 'c' :: (name ++ stop :: rest)) := by
  rintro ⟨found, own, stop', rest', htext, -, -, -, hlow⟩
  have hcs : found ++ '_' :: (own ++ stop' :: rest') = name ++ stop :: rest := by
    simpa using htext.symm
  obtain ⟨-, hbehind⟩ := eq_of_lowercase_eq hcs hlow
  cases (List.cons.inj hbehind).1
  exact absurd hstop (by decide)

/-- A text has one start only that can be compared with the namespace, the spelling itself. -/
theorem bare_spelling_iff (hupper : begins Char.isUpper name = true) (hstop : stop ∈ terminators) :
    Bare (lowercase name) ('%' :: 'c' :: (name ++ stop :: rest)) ↔
      byteLength name = byteLength (lowercase name) := by
  constructor
  · rintro ⟨head, stop', rest', htext, -, hlen, hlow, -⟩
    have hcs : head ++ stop' :: rest' = name ++ stop :: rest := by
      simpa using htext.symm
    obtain ⟨rfl, -⟩ := eq_of_lowercase_eq hcs hlow
    exact hlen
  · intro hlen
    exact ⟨name, stop, rest, rfl, hupper, hlen, rfl, hstop⟩

theorem isComponentPlaceholder_spelling_iff (hupper : begins Char.isUpper name = true)
    (hstop : stop ∈ terminators) :
    Shape.isComponentPlaceholder (lowercase name) ('%' :: 'c' :: (name ++ stop :: rest)) = true ↔
      byteLength name = byteLength (lowercase name) := by
  rw [isComponentPlaceholder_iff, or_iff_right (not_named_of_spelling hstop),
    bare_spelling_iff hupper hstop]

theorem dropWhile_of_begins_isUpper (h : begins Char.isUpper name = true) :
    name.dropWhile (· == '_') = name := by
  obtain ⟨c, cs, rfl, hc⟩ := begins_eq_true_iff.mp h
  have hne : c ≠ '_' := by
    rintro rfl
    exact absurd hc (by decide)
  simp [hne]

/-- A spelling of the namespace is accepted when it has as many bytes as its lowercase form, and
only then. The stem of a file is such a spelling if it starts with a capital letter. -/
theorem accepts_bareName (path ext : String) (line : Line) {stop : Char} (rest : List Char)
    (hstop : stop ∈ terminators) :
    (∀ name, begins Char.isUpper name = true → lowercase name = (baseName path ext).toList →
      line.text.toList = '%' :: 'c' :: (name ++ stop :: rest) →
      (Shape.componentPlaceholder.accepts line (baseName path ext) = true ↔
        (encode name).length = (encode (lowercase name)).length) ∧
      (IsAscii name → Shape.componentPlaceholder.accepts line (baseName path ext) = true)) ∧
    (begins Char.isUpper (fileStem path ext) = true →
      line.text.toList = '%' :: 'c' :: (fileStem path ext ++ stop :: rest) →
      (Shape.componentPlaceholder.accepts line (baseName path ext) = true ↔
        (encode (fileStem path ext)).length = (encode (lowercase (fileStem path ext))).length)) := by
  have hspelling : ∀ name, begins Char.isUpper name = true →
      lowercase name = (baseName path ext).toList →
      line.text.toList = '%' :: 'c' :: (name ++ stop :: rest) →
      (Shape.componentPlaceholder.accepts line (baseName path ext) = true ↔
        (encode name).length = (encode (lowercase name)).length) := by
    intro name hupper hlow htext
    rw [Shape.accepts, htext, ← hlow, length_encode, length_encode]
    exact isComponentPlaceholder_spelling_iff hupper hstop
  refine ⟨fun name hupper hlow htext => ⟨hspelling name hupper hlow htext, fun hascii => ?_⟩,
    fun hupper htext => hspelling _ hupper ?_ htext⟩
  · rw [hspelling name hupper hlow htext, length_encode, length_encode,
      byteLength_lowercase_ascii hascii]
  · rw [toList_baseName, dropWhile_of_begins_isUpper hupper]

theorem accepts_bareName_of_cafe :
    let path := "component/forms/Café.scss"
    let line := Line.ofString 7 "  %cCAFÉ:hover \x7b"
    let own := Line.ofString 8 "%cCafé, %cBadge \x7b"
    lowercase "CAFÉ".toList = (baseName path "scss").toList ∧
    line.text.toList = '%' :: 'c' :: ("CAFÉ".toList ++ ':' :: "hover \x7b".toList) ∧
    Shape.componentPlaceholder.accepts line (baseName path "scss") = true ∧
    own.text.toList = '%' :: 'c' :: (fileStem path "scss" ++ ',' :: " %cBadge \x7b".toList) ∧
    Shape.componentPlaceholder.accepts own (baseName path "scss") = true := by
  intro path line own
  have hlow : lowercase "CAFÉ".toList = (baseName path "scss").toList := by decide +kernel
  have htext : line.text.toList = '%' :: 'c' :: ("CAFÉ".toList ++ ':' :: "hover \x7b".toList) := by
    decide +kernel
  have hown : own.text.toList =
      '%' :: 'c' :: (fileStem path "scss" ++ ',' :: " %cBadge \x7b".toList) := by
    decide +kernel
  have hcolon : ':' ∈ terminators := by decide
  have hcomma : ',' ∈ terminators := by decide
  have hspelling := (accepts_bareName path "scss" line "hover \x7b".toList hcolon).1 "CAFÉ".toList
    (by decide) hlow htext
  have hstem := (accepts_bareName path "scss" own " %cBadge \x7b".toList hcomma).2
    (by decide +kernel) hown
  exact ⟨hlow, htext, hspelling.1.mpr (by decide +kernel), hown, hstem.mpr (by decide +kernel)⟩

/-- A component is refused its own stem: in lower case the two dotted capital letters have one byte
more each. -/
theorem bareName_refused_of_bilgi :
    let path := "component/BİLGİ.scss"
    let line := Line.ofString 1 "%cBİLGİ \x7b"
    Role.ofPath? path "scss" = some .component ∧
    fileStem path "scss" = "BİLGİ".toList ∧
    begins Char.isUpper "BİLGİ".toList = true ∧
    lowercase "BİLGİ".toList = (baseName path "scss").toList ∧
    line.text.toList = '%' :: 'c' :: ("BİLGİ".toList ++ ' ' :: ['{']) ∧
    Shape.componentPlaceholder.accepts line (baseName path "scss") = false := by
  decide +kernel

end Placeholder

end SheetLint
