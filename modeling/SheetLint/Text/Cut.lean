/-!
# Cutting a sequence at known parts

The few ways in which names, lines and paths are taken apart: what follows a known start, what
comes before a known end, the two sides of the last separator, and all pieces between separators.
Each function comes with the equation on `++` that determines its answer.
-/

namespace SheetLint.Text

universe u
variable {α : Type u} [BEq α] [LawfulBEq α]

/-- What follows `start`, if the sequence begins with it. -/
def afterStart? : (start cs : List α) → Option (List α)
  | [], cs => some cs
  | _ :: _, [] => none
  | a :: start, c :: cs => if a == c then afterStart? start cs else none

theorem afterStart?_eq_some_iff {start cs rest : List α} :
    afterStart? start cs = some rest ↔ cs = start ++ rest := by
  induction start generalizing cs with
  | nil => simp [afterStart?]
  | cons a start ih =>
    cases cs with
    | nil => simp [afterStart?]
    | cons c cs =>
      by_cases h : a = c
      · subst h
        simp [afterStart?, ih]
      · have h' : ¬ c = a := fun e => h e.symm
        simp [afterStart?, h, h']

theorem afterStart?_append (start rest : List α) : afterStart? start (start ++ rest) = some rest :=
  afterStart?_eq_some_iff.mpr rfl

theorem isSome_afterStart?_iff {start cs : List α} :
    (afterStart? start cs).isSome = true ↔ start <+: cs := by
  rw [Option.isSome_iff_exists]
  refine exists_congr fun rest => ?_
  rw [afterStart?_eq_some_iff, eq_comm]

/-- What comes before `ending`, if the sequence ends with it. -/
def beforeEnd? (ending cs : List α) : Option (List α) :=
  (afterStart? ending.reverse cs.reverse).map List.reverse

theorem beforeEnd?_eq_some_iff {ending cs front : List α} :
    beforeEnd? ending cs = some front ↔ cs = front ++ ending := by
  simp only [beforeEnd?, Option.map_eq_some_iff, afterStart?_eq_some_iff]
  constructor
  · rintro ⟨r, h, rfl⟩
    have h' := congrArg List.reverse h
    simpa using h'
  · rintro rfl
    exact ⟨front.reverse, by simp, by simp⟩

/-- The two sides of the last `a`. -/
def splitAtLast? (a : α) : List α → Option (List α × List α)
  | [] => none
  | c :: cs =>
    match splitAtLast? a cs with
    | some (front, back) => some (c :: front, back)
    | none => if c == a then some ([], cs) else none

theorem splitAtLast?_eq_none_iff {a : α} {cs : List α} : splitAtLast? a cs = none ↔ a ∉ cs := by
  induction cs with
  | nil => simp [splitAtLast?]
  | cons c cs ih =>
    cases h : splitAtLast? a cs with
    | none =>
      have hn : a ∉ cs := ih.mp h
      by_cases hc : c = a
      · simp [splitAtLast?, h, hc]
      · have hc' : ¬ a = c := fun e => hc e.symm
        simp [splitAtLast?, h, hc, hc', hn]
    | some p =>
      have hm : a ∈ cs := by
        apply Classical.byContradiction
        intro hm
        rw [ih.mpr hm] at h
        exact absurd h (by simp)
      simp [splitAtLast?, h, hm]

theorem splitAtLast?_eq_some_iff {a : α} {cs front back : List α} :
    splitAtLast? a cs = some (front, back) ↔ cs = front ++ a :: back ∧ a ∉ back := by
  induction cs generalizing front back with
  | nil => simp [splitAtLast?]
  | cons c cs ih =>
    cases h : splitAtLast? a cs with
    | none =>
      have hn : a ∉ cs := splitAtLast?_eq_none_iff.mp h
      cases front with
      | nil =>
        by_cases hc : c = a
        · subst hc
          simp only [splitAtLast?, h, beq_self_eq_true, ite_true, Option.some.injEq,
            Prod.mk.injEq, true_and, List.nil_append, List.cons.injEq]
          constructor
          · rintro rfl
            exact ⟨rfl, hn⟩
          · exact fun e => e.1
        · simp [splitAtLast?, h, hc]
      | cons d front =>
        have hneg : cs ≠ front ++ a :: back := by
          rintro rfl
          exact hn (by simp)
        by_cases hc : c = a <;> simp [splitAtLast?, h, hc, hneg]
    | some p =>
      obtain ⟨f, b⟩ := p
      have hcs := ih.mp h
      cases front with
      | nil =>
        simp only [splitAtLast?, h, Option.some.injEq, Prod.mk.injEq, List.nil_append,
          List.cons.injEq]
        constructor
        · rintro ⟨e, _⟩
          exact absurd e (by simp)
        · rintro ⟨⟨_, rfl⟩, hb⟩
          exact absurd hb (by simp [hcs.1])
      | cons d front =>
        simp only [splitAtLast?, h, Option.some.injEq, Prod.mk.injEq, List.cons.injEq,
          List.cons_append]
        constructor
        · rintro ⟨⟨rfl, rfl⟩, rfl⟩
          exact ⟨⟨rfl, hcs.1⟩, hcs.2⟩
        · rintro ⟨⟨rfl, e⟩, hb⟩
          have h2 := ih.mpr ⟨e, hb⟩
          rw [h] at h2
          simp only [Option.some.injEq, Prod.mk.injEq] at h2
          exact ⟨⟨rfl, h2.1⟩, h2.2⟩

/-- What follows the last `a`, or the whole sequence if there is none. -/
def afterLast (a : α) (cs : List α) : List α :=
  match splitAtLast? a cs with
  | some (_, back) => back
  | none => cs

theorem not_mem_afterLast (a : α) (cs : List α) : a ∉ afterLast a cs := by
  unfold afterLast
  split
  · next h => exact (splitAtLast?_eq_some_iff.mp h).2
  · next h => exact splitAtLast?_eq_none_iff.mp h

/-- The first piece and the others between the separators `a`. -/
def pieces (a : α) : List α → List α × List (List α)
  | [] => ([], [])
  | c :: cs =>
    let (piece, others) := pieces a cs
    if c == a then ([], piece :: others) else (c :: piece, others)

/-- All pieces between the separators `a`. There is one more of them than separators. -/
def split (a : α) (cs : List α) : List (List α) := (pieces a cs).1 :: (pieces a cs).2

theorem length_split (a : α) (cs : List α) : (split a cs).length = cs.count a + 1 := by
  induction cs with
  | nil => rfl
  | cons c cs ih =>
    simp only [split, List.length_cons, Nat.add_right_cancel_iff] at ih
    by_cases h : c = a <;> simp [split, pieces, h, ih]

theorem not_mem_split {a : α} {cs piece : List α} (h : piece ∈ split a cs) : a ∉ piece := by
  suffices a ∉ (pieces a cs).1 ∧ ∀ p ∈ (pieces a cs).2, a ∉ p by
    rcases List.mem_cons.mp h with rfl | h
    · exact this.1
    · exact this.2 piece h
  clear h
  induction cs with
  | nil => simp [pieces]
  | cons c cs ih =>
    by_cases h : c = a
    · subst h
      simp only [pieces, beq_self_eq_true, ite_true, List.mem_cons]
      refine ⟨by simp, ?_⟩
      rintro p (rfl | hp)
      · exact ih.1
      · exact ih.2 p hp
    · have h' : ¬ a = c := fun e => h e.symm
      have hb : (c == a) = false := by simp [h]
      simp only [pieces, hb, Bool.false_eq_true, ite_false, List.mem_cons, not_or]
      exact ⟨⟨h', ih.1⟩, ih.2⟩

theorem split_cons_of_ne {a c : α} (h : c ≠ a) (cs : List α) :
    split a (c :: cs) = (c :: (pieces a cs).1) :: (pieces a cs).2 := by
  simp [split, pieces, h]

/-- A sequence without the separator is its own only piece. -/
theorem split_of_not_mem {a : α} {cs : List α} (h : a ∉ cs) : split a cs = [cs] := by
  induction cs with
  | nil => rfl
  | cons c cs ih =>
    have hc : c ≠ a := fun e => h (by simp [e])
    have ih' := ih fun e => h (by simp [e])
    simp only [split, List.cons.injEq] at ih'
    simp [split, pieces, hc, ih'.1, ih'.2]

theorem split_append_cons {a : α} {piece : List α} (h : a ∉ piece) (cs : List α) :
    split a (piece ++ a :: cs) = piece :: split a cs := by
  induction piece with
  | nil => simp [split, pieces]
  | cons c piece ih =>
    have hc : c ≠ a := fun e => h (by simp [e])
    have ih' := ih fun e => h (by simp [e])
    simp only [split, List.cons.injEq] at ih'
    simp [split, pieces, hc, ih'.1, ih'.2]

theorem split_append (a : α) (front back : List α) :
    split a (front ++ a :: back) = split a front ++ split a back := by
  induction front with
  | nil => simp [split, pieces]
  | cons c front ih =>
    simp only [split, List.cons_append, List.cons.injEq] at ih
    by_cases hc : c = a
    · simp [split, pieces, hc, ih.1, ih.2]
    · simp [split, pieces, hc, ih.1, ih.2]

/-- The last piece is what follows the last separator. -/
theorem getLast?_split (a : α) (cs : List α) : (split a cs).getLast? = some (afterLast a cs) := by
  unfold afterLast
  split
  · next back h =>
    obtain ⟨rfl, hback⟩ := splitAtLast?_eq_some_iff.mp h
    rw [split_append, split_of_not_mem hback, List.getLast?_concat]
  · next h => rw [split_of_not_mem (splitAtLast?_eq_none_iff.mp h), List.getLast?_singleton]

theorem afterLast_append (a : α) (front : List α) {back : List α} (h : a ∉ back) :
    afterLast a (front ++ a :: back) = back := by
  rw [afterLast, splitAtLast?_eq_some_iff.mpr ⟨rfl, h⟩]

/-- What stands in front of a separator has no part in what follows the last one. -/
theorem afterLast_append_cons (a : α) (front back : List α) :
    afterLast a (front ++ a :: back) = afterLast a back := by
  have hlast := getLast?_split a (front ++ a :: back)
  rw [split_append, List.getLast?_append, getLast?_split, Option.some_or] at hlast
  exact (Option.some.inj hlast).symm

/-- Cutting between the separators undoes putting them there. -/
theorem split_intercalate {a : α} {parts : List (List α)} (hne : parts ≠ [])
    (h : ∀ part ∈ parts, a ∉ part) : split a ([a].intercalate parts) = parts := by
  induction parts with
  | nil => exact absurd rfl hne
  | cons part parts ih =>
    obtain ⟨hpart, hparts⟩ := List.forall_mem_cons.mp h
    cases parts with
    | nil => rw [List.intercalate_singleton, split_of_not_mem hpart]
    | cons next parts =>
      rw [List.intercalate_cons_cons, List.append_assoc, List.singleton_append,
        split_append_cons hpart, ih (by simp) hparts]

end SheetLint.Text
