import SheetLint.Proofs.Text.Utf8

/-!
# What lowercase forms are made of

Which lowercase characters stand for a capital sigma depends on the text around it, but how many
there are does not. So of two texts one of which goes on from the other, the longer one has the
longer lowercase form. In number of bytes nothing of the kind holds. And lowercase forms bring no
punctuation of ASCII with them: what is found of it was in the text.
-/

namespace SheetLint.Text

/-- What stands in the lowercase form for a character between two texts. -/
def formOf (before : List Char) (c : Char) (behind : List Char) : List Char :=
  if c = 'Σ' then [lowercaseSigma before behind] else lowercaseOf c

theorem lowercaseAfter_cons (before : List Char) (c : Char) (cs : List Char) :
    lowercaseAfter before (c :: cs) = formOf before c cs ++ lowercaseAfter (c :: before) cs := rfl

theorem length_formOf (before : List Char) (c : Char) (behind : List Char) :
    (formOf before c behind).length = (lowercaseOf c).length := by
  have hsigma : (lowercaseOf 'Σ').length = 1 := by decide +kernel
  unfold formOf
  split
  · next h => rw [h, hsigma, List.length_singleton]
  · rfl

theorem lowercaseOf_ne_nil (c : Char) : lowercaseOf c ≠ [] := by
  unfold lowercaseOf
  split
  · exact List.cons_ne_nil _ _
  split
  · exact List.cons_ne_nil _ _
  split
  · exact List.cons_ne_nil _ _
  · exact List.cons_ne_nil _ _

theorem length_lowercaseAfter (before cs : List Char) :
    (lowercaseAfter before cs).length = (cs.flatMap lowercaseOf).length := by
  induction cs generalizing before with
  | nil => rfl
  | cons c cs ih =>
    rw [lowercaseAfter_cons, List.length_append, length_formOf, ih, List.flatMap_cons,
      List.length_append]

theorem length_lowercase_append (cs ds : List Char) :
    (lowercase (cs ++ ds)).length = (lowercase cs).length + (lowercase ds).length := by
  simp only [lowercase, length_lowercaseAfter, List.flatMap_append, List.length_append]

theorem eq_nil_of_length_lowercase {cs : List Char} (h : (lowercase cs).length = 0) : cs = [] := by
  cases cs with
  | nil => rfl
  | cons c cs =>
    have hpos := List.length_pos_iff.mpr (lowercaseOf_ne_nil c)
    rw [lowercase, length_lowercaseAfter, List.flatMap_cons, List.length_append] at h
    omega

/-- Two starts of one text with the same lowercase form are the same. -/
theorem eq_of_lowercase_eq {cs ds as bs : List Char} (heq : cs ++ as = ds ++ bs)
    (hlow : lowercase cs = lowercase ds) : cs = ds ∧ as = bs := by
  have hlen := congrArg List.length hlow
  rcases List.append_eq_append_iff.mp heq with ⟨more, rfl, rfl⟩ | ⟨more, rfl, rfl⟩
  · rw [length_lowercase_append] at hlen
    have hnil : more = [] := eq_nil_of_length_lowercase (by omega)
    subst hnil
    exact ⟨by simp, rfl⟩
  · rw [length_lowercase_append] at hlen
    have hnil : more = [] := eq_nil_of_length_lowercase (by omega)
    subst hnil
    exact ⟨by simp, rfl⟩

/-- Of the one lowercase form with two characters the second is not ASCII. -/
theorem length_lowercaseOf_of_isAscii {c : Char} (h : IsAscii (lowercaseOf c)) :
    (lowercaseOf c).length = 1 := by
  by_cases hdotted : c.toNat = 0x130
  · have hform : lowercaseOf c = ['i', '\u0307'] := by simp [lowercaseOf, hdotted]
    rw [hform] at h
    exact absurd (h '\u0307' (by simp)) (by decide)
  · unfold lowercaseOf
    rw [if_neg hdotted]
    split
    · rfl
    split
    · rfl
    · rfl

theorem length_formOf_of_isAscii {before behind : List Char} {c : Char}
    (h : IsAscii (formOf before c behind)) : (formOf before c behind).length = 1 := by
  unfold formOf at h ⊢
  split
  · rfl
  · next hsigma =>
    rw [if_neg hsigma] at h
    exact length_lowercaseOf_of_isAscii h

/-- An ASCII lowercase form has one character for each character of the text, whatever the text is
made of. -/
theorem length_lowercase_of_isAscii {cs : List Char} (h : IsAscii (lowercase cs)) :
    (lowercase cs).length = cs.length := by
  suffices ∀ before, IsAscii (lowercaseAfter before cs) →
      (lowercaseAfter before cs).length = cs.length from this [] h
  clear h
  induction cs with
  | nil => exact fun _ _ => rfl
  | cons c cs ih =>
    intro before h
    rw [lowercaseAfter_cons] at h ⊢
    obtain ⟨hform, hrest⟩ := isAscii_append.mp h
    rw [List.length_append, length_formOf_of_isAscii hform, ih _ hrest, List.length_cons,
      Nat.add_comm]

/-- A character of ASCII, other than NUL, in front of the small letters. -/
def Low (c : Char) : Prop := 0 < c.toNat ∧ c.toNat < 97

theorem lower_of_mem_caseRuns : ∀ run ∈ caseRuns, 97 ≤ run.lower := by
  decide +kernel

theorem not_low_ofNat {n : Nat} (h : 97 ≤ n) : ¬ Low (Char.ofNat n) := by
  rintro ⟨hpos, hlt⟩
  rw [toNat_ofNat] at hpos hlt
  split at hlt
  · omega
  · next hinvalid =>
    rw [if_neg hinvalid] at hpos
    omega

/-- The lowercase form of an ASCII character is a small letter or the character itself. -/
theorem eq_toLower_of_low {c : Char} (hlow : Low c.toLower) : c.toLower = c := by
  unfold Char.toLower at hlow ⊢
  split
  · next hupper =>
    rw [dif_pos hupper] at hlow
    have hrange := toNat_of_isUpper (c := c) (decide_eq_true hupper)
    have hnat : (c.val + 32).toNat = c.toNat + 32 := by
      rw [UInt32.toNat_add]
      change (c.toNat + 32) % 2 ^ 32 = c.toNat + 32
      omega
    have hlt : (c.val + 32).toNat < 97 := hlow.2
    omega
  · rfl

theorem eq_of_mem_lowercaseOf {c d : Char} (hlow : Low d) (h : d ∈ lowercaseOf c) : d = c := by
  unfold lowercaseOf at h
  split at h
  · cases List.mem_singleton.mp h
    exact eq_toLower_of_low hlow
  split at h
  · rcases List.mem_cons.mp h with rfl | h
    · exact absurd hlow.2 (by decide)
    · cases List.mem_singleton.mp h
      exact absurd hlow.2 (by decide)
  split at h
  · next run hfind =>
    cases List.mem_singleton.mp h
    have hlower := lower_of_mem_caseRuns run (List.mem_of_find?_eq_some hfind)
    refine absurd hlow (not_low_ofNat ?_)
    rw [CaseRun.image]
    omega
  · exact List.mem_singleton.mp h

theorem eq_of_mem_formOf {before behind : List Char} {c d : Char} (hlow : Low d)
    (h : d ∈ formOf before c behind) : d = c := by
  unfold formOf at h
  split at h
  · have hsigma : d = 'ς' ∨ d = 'σ' := by
      rw [List.mem_singleton.mp h, lowercaseSigma]
      split
      · exact Or.inl rfl
      · exact Or.inr rfl
    rcases hsigma with rfl | rfl
    · exact absurd hlow.2 (by decide)
    · exact absurd hlow.2 (by decide)
  · exact eq_of_mem_lowercaseOf hlow h

theorem mem_of_mem_lowercase {cs : List Char} {d : Char} (hlow : Low d) (h : d ∈ lowercase cs) :
    d ∈ cs := by
  suffices ∀ before, d ∈ lowercaseAfter before cs → d ∈ cs from this [] h
  clear h
  induction cs with
  | nil => exact fun _ h => h
  | cons c cs ih =>
    intro before h
    rw [lowercaseAfter_cons, List.mem_append] at h
    rcases h with h | h
    · exact eq_of_mem_formOf hlow h ▸ List.mem_cons_self
    · exact List.mem_cons_of_mem _ (ih _ h)

theorem head?_of_head?_lowercase {cs : List Char} {d : Char} (hlow : Low d)
    (h : (lowercase cs).head? = some d) : cs.head? = some d := by
  cases cs with
  | nil => exact h
  | cons c cs =>
    have hne : formOf [] c cs ≠ [] := by
      rw [ne_eq, ← List.length_eq_zero_iff, length_formOf, List.length_eq_zero_iff]
      exact lowercaseOf_ne_nil c
    rw [lowercase, lowercaseAfter_cons, List.head?_append_of_ne_nil _ hne] at h
    rw [List.head?_cons, eq_of_mem_formOf hlow (List.mem_of_head? h)]

end SheetLint.Text
