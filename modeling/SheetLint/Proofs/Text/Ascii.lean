import SheetLint.Text.Lowercase
import SheetLint.Text.Utf8

/-!
# ASCII texts

In an ASCII text characters, bytes and lowercase forms are in step: each character has one byte and
one lowercase character. An ASCII character also keeps its own lowercase form in any text around it,
so it cannot be lost in what follows or precedes it.
-/

namespace SheetLint.Text

def IsAscii (cs : List Char) : Prop := ∀ c ∈ cs, c.toNat < 128

theorem isAscii_nil : IsAscii [] := fun _ h => absurd h List.not_mem_nil

theorem isAscii_cons {c : Char} {cs : List Char} :
    IsAscii (c :: cs) ↔ c.toNat < 128 ∧ IsAscii cs := by
  simp [IsAscii]

theorem isAscii_append {cs ds : List Char} : IsAscii (cs ++ ds) ↔ IsAscii cs ∧ IsAscii ds :=
  List.forall_mem_append

/-- What holds of the first 128 characters holds of the ASCII ones. -/
theorem forall_ascii {P : Char → Prop} (h : ∀ n < 128, P (Char.ofNat n)) {c : Char}
    (hc : c.toNat < 128) : P c := by
  rw [← Char.ofNat_toNat c]
  exact h c.toNat hc

theorem toNat_of_isUpper {c : Char} (h : c.isUpper = true) : 65 ≤ c.toNat ∧ c.toNat ≤ 90 := by
  obtain ⟨hlow, hhigh⟩ := of_decide_eq_true h
  exact ⟨UInt32.le_iff_toNat_le.mp hlow, UInt32.le_iff_toNat_le.mp hhigh⟩

theorem toNat_of_isLower {c : Char} (h : c.isLower = true) : 97 ≤ c.toNat ∧ c.toNat ≤ 122 := by
  obtain ⟨hlow, hhigh⟩ := Bool.and_eq_true_iff.mp h
  exact ⟨UInt32.le_iff_toNat_le.mp (of_decide_eq_true hlow),
    UInt32.le_iff_toNat_le.mp (of_decide_eq_true hhigh)⟩

theorem toNat_lt_of_isLower {c : Char} (h : c.isLower = true) : c.toNat < 128 := by
  have := toNat_of_isLower h
  omega

theorem toNat_of_isDigit {c : Char} (h : c.isDigit = true) : 48 ≤ c.toNat ∧ c.toNat ≤ 57 := by
  obtain ⟨hlow, hhigh⟩ := Bool.and_eq_true_iff.mp h
  exact ⟨UInt32.le_iff_toNat_le.mp (of_decide_eq_true hlow),
    UInt32.le_iff_toNat_le.mp (of_decide_eq_true hhigh)⟩

theorem isAlpha_of_isUpper {c : Char} (h : c.isUpper = true) : c.isAlpha = true :=
  Bool.or_eq_true_iff.mpr (Or.inl h)

theorem isAlpha_of_isLower {c : Char} (h : c.isLower = true) : c.isAlpha = true :=
  Bool.or_eq_true_iff.mpr (Or.inr h)

theorem isAlphanum_of_isAlpha {c : Char} (h : c.isAlpha = true) : c.isAlphanum = true :=
  Bool.or_eq_true_iff.mpr (Or.inl h)

theorem toNat_of_isAlphanum {c : Char} (h : c.isAlphanum = true) :
    48 ≤ c.toNat ∧ c.toNat ≤ 122 := by
  rcases Bool.or_eq_true_iff.mp h with h | h
  · rcases Bool.or_eq_true_iff.mp h with h | h
    · have := toNat_of_isUpper h
      omega
    · have := toNat_of_isLower h
      omega
  · have := toNat_of_isDigit h
    omega

theorem toNat_lt_of_isAlphanum {c : Char} (h : c.isAlphanum = true) : c.toNat < 128 := by
  have := toNat_of_isAlphanum h
  omega

theorem utf8Size_ascii {c : Char} (h : c.toNat < 128) : c.utf8Size = 1 := by
  rw [Char.utf8Size_eq_one_iff, UInt32.le_iff_toNat_le]
  change c.toNat ≤ 127
  omega

theorem toNat_lt_of_utf8Size {c : Char} (h : c.utf8Size = 1) : c.toNat < 128 := by
  have hval : c.toNat ≤ 127 := UInt32.le_iff_toNat_le.mp (Char.utf8Size_eq_one_iff.mp h)
  omega

theorem byteLength_ascii {cs : List Char} (h : IsAscii cs) : byteLength cs = cs.length := by
  induction cs with
  | nil => rfl
  | cons c cs ih =>
    obtain ⟨hc, hcs⟩ := isAscii_cons.mp h
    rw [byteLength, utf8Size_ascii hc, ih hcs, List.length_cons]
    omega

theorem length_le_byteLength (cs : List Char) : cs.length ≤ byteLength cs := by
  induction cs with
  | nil => exact Nat.le_refl 0
  | cons c cs ih =>
    have hpos := c.utf8Size_pos
    rw [byteLength, List.length_cons]
    omega

/-- A text with no more bytes than characters is ASCII. -/
theorem isAscii_of_byteLength_le {cs : List Char} (h : byteLength cs ≤ cs.length) :
    IsAscii cs := by
  induction cs with
  | nil => exact isAscii_nil
  | cons c cs ih =>
    have hpos := c.utf8Size_pos
    have hle := length_le_byteLength cs
    rw [byteLength, List.length_cons] at h
    have hsize : c.utf8Size = 1 := by omega
    have hcs : byteLength cs ≤ cs.length := by omega
    exact isAscii_cons.mpr ⟨toNat_lt_of_utf8Size hsize, ih hcs⟩

theorem length_encode (cs : List Char) : (encode cs).length = byteLength cs := by
  induction cs with
  | nil => rfl
  | cons c cs ih =>
    rw [byteLength, ← ih]
    simp [encode]

theorem encode_append (cs ds : List Char) : encode (cs ++ ds) = encode cs ++ encode ds := by
  simp [encode]

/-- A cut after `n` bytes has two parts if some start of the text takes `n` bytes, and there is none
otherwise. It never goes through a character. -/
theorem cutAtByte?_of_length_encode (n : Nat) (cs : List Char) :
    (∃ head rest, cutAtByte? n cs = some (head, rest) ∧ cs = head ++ rest ∧
      (encode head).length = n) ∨
    (cutAtByte? n cs = none ∧ ∀ head, head <+: cs → (encode head).length ≠ n) := by
  cases hcut : cutAtByte? n cs with
  | some parts =>
    obtain ⟨head, rest⟩ := parts
    obtain ⟨hcs, hlen⟩ := cutAtByte?_eq_some_iff.mp hcut
    exact Or.inl ⟨head, rest, rfl, hcs, (length_encode head).trans hlen⟩
  | none =>
    refine Or.inr ⟨rfl, ?_⟩
    rintro head ⟨rest, hcs⟩ hlen
    have hsome := cutAtByte?_eq_some_iff.mpr ⟨hcs.symm, (length_encode head).symm.trans hlen⟩
    rw [hcut] at hsome
    cases hsome

theorem toNat_toLower_ascii {c : Char} (h : c.toNat < 128) : c.toLower.toNat < 128 :=
  forall_ascii (P := fun c => c.toLower.toNat < 128) (by decide) h

theorem toLower_of_not_isUpper {c : Char} (h : c.isUpper = false) : c.toLower = c :=
  dif_neg (of_decide_eq_false h)

/-- Only ASCII letters are changed, so what is not ASCII is not ASCII in lower case. -/
theorem toNat_lt_of_toLower {c : Char} (h : c.toLower.toNat < 128) : c.toNat < 128 := by
  by_cases hupper : c.isUpper = true
  · have := toNat_of_isUpper hupper
    omega
  · rwa [toLower_of_not_isUpper (by simpa using hupper)] at h

theorem isLower_toLower {c : Char} (h : c.isAlpha = true) : c.toLower.isLower = true :=
  forall_ascii (P := fun c => c.isAlpha = true → c.toLower.isLower = true) (by decide)
    (toNat_lt_of_isAlphanum (isAlphanum_of_isAlpha h)) h

theorem toLower_of_isLower {c : Char} (h : c.isLower = true) : c.toLower = c :=
  forall_ascii (P := fun c => c.isLower = true → c.toLower = c) (by decide)
    (toNat_lt_of_isLower h) h

theorem isUpper_toUpper {c : Char} (h : c.isLower = true) : c.toUpper.isUpper = true :=
  forall_ascii (P := fun c => c.isLower = true → c.toUpper.isUpper = true) (by decide)
    (toNat_lt_of_isLower h) h

theorem toLower_toUpper {c : Char} (h : c.isLower = true) : c.toUpper.toLower = c :=
  forall_ascii (P := fun c => c.isLower = true → c.toUpper.toLower = c) (by decide)
    (toNat_lt_of_isLower h) h

/-- The lowercase form of an ASCII text takes as many bytes as the text. -/
theorem byteLength_lowercase_ascii {cs : List Char} (h : IsAscii cs) :
    byteLength (lowercase cs) = byteLength cs := by
  rw [lowercase_ascii h, byteLength_ascii h, byteLength_ascii, List.length_map]
  intro c hc
  obtain ⟨d, hd, rfl⟩ := List.mem_map.mp hc
  exact toNat_toLower_ascii (h d hd)

/-- Wherever an ASCII character stands, its lowercase form stands in the lowercase text. -/
theorem toLower_mem_lowercase {c : Char} {cs : List Char} (hc : c.toNat < 128) (h : c ∈ cs) :
    c.toLower ∈ lowercase cs := by
  suffices ∀ before, c.toLower ∈ lowercaseAfter before cs from this []
  induction cs with
  | nil => simp at h
  | cons d cs ih =>
    intro before
    rw [lowercaseAfter, List.mem_append]
    rcases List.mem_cons.mp h with rfl | h
    · have hs : c ≠ 'Σ' := by
        rintro rfl
        exact absurd hc (by decide)
      left
      rw [if_neg hs, lowercaseOf_ascii hc]
      exact List.mem_singleton_self _
    · exact Or.inr (ih h _)

end SheetLint.Text
