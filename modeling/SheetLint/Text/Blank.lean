/-!
# White space at the two ends of a text

A blank is a character of the Unicode property White_Space, so a no-break space or a line separator
counts as well as the ASCII ones. Trimming removes the longest blank run at one end and nothing
else; what stands between two other characters is never touched.
-/

namespace SheetLint.Text

/-- The Unicode property White_Space. -/
def isBlank (c : Char) : Bool :=
  let n := c.toNat
  (9 ≤ n && n ≤ 13) || n == 0x20 || n == 0x85 || n == 0xA0 || n == 0x1680 ||
    (0x2000 ≤ n && n ≤ 0x200A) || n == 0x2028 || n == 0x2029 || n == 0x202F || n == 0x205F ||
    n == 0x3000

def trimStart (cs : List Char) : List Char := cs.dropWhile isBlank

def trimEnd (cs : List Char) : List Char := (cs.reverse.dropWhile isBlank).reverse

def trim (cs : List Char) : List Char := trimStart (trimEnd cs)

/-- A text made of blanks only, possibly of none. -/
def AllBlank (cs : List Char) : Prop := ∀ c ∈ cs, isBlank c = true

theorem dropWhile_blank_append {w : List Char} (hw : AllBlank w) (cs : List Char) :
    (w ++ cs).dropWhile isBlank = cs.dropWhile isBlank := by
  induction w with
  | nil => rfl
  | cons c w ih =>
    have hc : isBlank c = true := hw c (by simp)
    have hw' : AllBlank w := fun d hd => hw d (by simp [hd])
    simp [hc, ih hw']

theorem trimStart_blank_append {w : List Char} (hw : AllBlank w) (cs : List Char) :
    trimStart (w ++ cs) = trimStart cs :=
  dropWhile_blank_append hw cs

theorem trimEnd_append_blank {w : List Char} (hw : AllBlank w) (cs : List Char) :
    trimEnd (cs ++ w) = trimEnd cs := by
  have hr : AllBlank w.reverse := fun c hc => hw c (by simpa using hc)
  simp only [trimEnd, List.reverse_append, dropWhile_blank_append hr]

/-- Blanks in front of a text are trimmed with it, also where the text is blank itself and trimming
its end reaches into them. -/
theorem trim_blank_append {w : List Char} (hw : AllBlank w) (cs : List Char) :
    trim (w ++ cs) = trim cs := by
  have hr : AllBlank w.reverse := fun c hc => hw c (by simpa using hc)
  have hnone : w.reverse.dropWhile isBlank = [] := by
    simpa using dropWhile_blank_append hr []
  by_cases hempty : cs.reverse.dropWhile isBlank = []
  · simp [trim, trimEnd, List.dropWhile_append, hempty, hnone]
  · have hend : trimEnd (w ++ cs) = w ++ trimEnd cs := by
      simp [trimEnd, List.dropWhile_append, hempty]
    rw [trim, hend, trimStart_blank_append hw, ← trim]

theorem trim_padded {w w' : List Char} (hw : AllBlank w) (hw' : AllBlank w') (cs : List Char) :
    trim (w ++ cs ++ w') = trim cs := by
  rw [trim, trimEnd_append_blank hw', ← trim, trim_blank_append hw]

theorem exists_trimStart (cs : List Char) : ∃ w, AllBlank w ∧ cs = w ++ trimStart cs := by
  refine ⟨cs.takeWhile isBlank, ?_, (List.takeWhile_append_dropWhile).symm⟩
  intro c hc
  exact List.all_eq_true.mp List.all_takeWhile c hc

theorem exists_trimEnd (cs : List Char) : ∃ w, AllBlank w ∧ cs = trimEnd cs ++ w := by
  obtain ⟨w, hw, he⟩ := exists_trimStart cs.reverse
  refine ⟨w.reverse, fun c hc => hw c (by simpa using hc), ?_⟩
  have h := congrArg List.reverse he
  simpa [trimEnd, trimStart] using h

theorem trimStart_eq_self {c : Char} {r : List Char} (hc : isBlank c = false) :
    trimStart (c :: r) = c :: r := by
  simp [trimStart, hc]

/-- A text with no blank at either end is trimmed already. -/
theorem trim_of_ends {first last : Char} (inner : List Char) (hfirst : isBlank first = false)
    (hlast : isBlank last = false) :
    trim (first :: (inner ++ [last])) = first :: (inner ++ [last]) := by
  simp [trim, trimEnd, trimStart, hfirst, hlast]

end SheetLint.Text
