import SheetLint.Proofs.Form

/-!
# Blanks around a line

Every rule looks either at the text of a line or at the line with its indentation, and each one that
looks at the latter passes over the indentation first. So all that is ever read off a record is the
text between the blanks, and blanks around a line, of whatever kind, change nothing in its verdict.
-/

namespace SheetLint

open Text

section SameText

variable {number number' : Nat} {source source' : String}

theorem Line.kind_congr (h : trim source.toList = trim source'.toList) :
    (ofString number source).kind = (ofString number' source').kind := by
  apply Option.ext
  intro kind
  rw [kind_ofString_eq_some_iff, kind_ofString_eq_some_iff, h]

theorem Shape.accepts_congr (h : trim source.toList = trim source'.toList) (shape : Shape)
    (space : String) : shape.accepts (Line.ofString number source) space =
      shape.accepts (Line.ofString number' source') space := by
  rw [Bool.eq_iff_iff, accepts_ofString_iff, accepts_ofString_iff, h]

theorem Rule.fault?_congr (h : trim source.toList = trim source'.toList) (rule : Rule)
    (space : String) : rule.fault? (Line.ofString number source) space =
      rule.fault? (Line.ofString number' source') space := by
  cases rule with
  | forbidden fault => rfl
  | shaped shape fault =>
    rw [fault?, fault?, Shape.accepts_congr h shape space]

theorem Line.fault?_congr (h : trim source.toList = trim source'.toList) (role : Role)
    (space : String) : (ofString number source).fault? role space =
      (ofString number' source').fault? role space := by
  rw [fault?, fault?, kind_congr h]
  cases (ofString number' source').kind with
  | none => rfl
  | some kind =>
    dsimp only
    cases Rule.find? kind role with
    | none => rfl
    | some rule => exact rule.fault?_congr h space

end SameText

/-- A line between blanks has the text and the kind of the line alone, fits the same shapes, and is
told the same in every role. -/
theorem Line.padded_alike (number : Nat) (before source behind : String)
    (hbefore : AllBlank before.toList) (hbehind : AllBlank behind.toList) :
    let padded := ofString number (before ++ source ++ behind)
    let line := ofString number source
    padded.text = line.text ∧ padded.kind = line.kind ∧
    (∀ (shape : Shape) space, shape.accepts padded space = shape.accepts line space) ∧
    ∀ role space, padded.fault? role space = line.fault? role space ∧
      padded.message? role space = line.message? role space := by
  intro padded line
  have htext : trim (before ++ source ++ behind).toList = trim source.toList := by
    rw [String.toList_append, String.toList_append, trim_padded hbefore hbehind]
  refine ⟨?_, kind_congr htext, fun shape space => Shape.accepts_congr htext shape space, ?_⟩
  · rw [← String.toList_inj, text_ofString, text_ofString, htext]
  · intro role space
    have hfault : padded.fault? role space = line.fault? role space := fault?_congr htext role space
    exact ⟨hfault, congrArg (Option.map Fault.message) hfault⟩

/-- A no-break space and a line feed before the class, an ideographic space behind it. -/
theorem Line.padded_alike_of_page :
    let padded := ofString 4 ("\u00A0\n\t" ++ ".page-title," ++ " \r\u3000")
    padded.text = ".page-title," ∧ padded.kind = some .classSelector ∧
    padded.message? .module "page" = none ∧
    padded.message? .module "title" = some "invalid class selector name" := by
  have hbefore : AllBlank "\u00A0\n\t".toList := List.all_eq_true.mp (by decide)
  have hbehind : AllBlank " \r\u3000".toList := List.all_eq_true.mp (by decide)
  obtain ⟨htext, hkind, -, hverdict⟩ := padded_alike 4 _ ".page-title," _ hbefore hbehind
  refine ⟨htext.trans ?_, hkind.trans ?_, (hverdict _ _).2.trans ?_, (hverdict _ _).2.trans ?_⟩
  · decide +kernel
  · decide +kernel
  · decide +kernel
  · decide +kernel

end SheetLint
