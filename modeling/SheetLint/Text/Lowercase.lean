import SheetLint.Text.CaseTable

/-!
# Lowercase texts

The full lowercase mapping of Unicode without any language's own rules. One character, U+0130, has
a lowercase form of two characters, and one, the capital sigma, has two lowercase forms: the final
one at the end of a word and the common one elsewhere. A word's end is found by looking past the
case-ignorable characters on both sides for a cased one.
-/

namespace SheetLint.Text

/-- The lowercase form of a character that does not depend on its neighbours. -/
def lowercaseOf (c : Char) : List Char :=
  if c.toNat < 128 then [c.toLower]
  else if c.toNat = 0x130 then ['i', '\u0307']
  else
    match caseRuns.find? (·.covers c.toNat) with
    | some run => [Char.ofNat (run.image c.toNat)]
    | none => [c]

/-- The nearest character that is not case-ignorable is a cased one. -/
def reachesCased (cs : List Char) : Bool :=
  match cs.dropWhile fun c => inRanges caseIgnorableRanges c.toNat with
  | [] => false
  | c :: _ => inRanges casedRanges c.toNat

/-- The capital sigma between `before`, nearest character first, and `behind`. -/
def lowercaseSigma (before behind : List Char) : Char :=
  if reachesCased before && !reachesCased behind then 'ς' else 'σ'

def lowercaseAfter (before : List Char) : List Char → List Char
  | [] => []
  | c :: cs =>
    (if c = 'Σ' then [lowercaseSigma before cs] else lowercaseOf c) ++ lowercaseAfter (c :: before) cs

def lowercase (cs : List Char) : List Char := lowercaseAfter [] cs

theorem lowercaseOf_ascii {c : Char} (h : c.toNat < 128) : lowercaseOf c = [c.toLower] := by
  simp [lowercaseOf, h]

/-- On ASCII the mapping works character by character. -/
theorem lowercase_ascii {cs : List Char} (h : ∀ c ∈ cs, c.toNat < 128) :
    lowercase cs = cs.map Char.toLower := by
  suffices ∀ before, lowercaseAfter before cs = cs.map Char.toLower from this []
  induction cs with
  | nil => intro before; rfl
  | cons c cs ih =>
    intro before
    have hc : c.toNat < 128 := h c (by simp)
    have hs : c ≠ 'Σ' := by
      rintro rfl
      exact absurd hc (by decide)
    simp [lowercaseAfter, hs, lowercaseOf_ascii hc, ih fun d hd => h d (by simp [hd])]

end SheetLint.Text
