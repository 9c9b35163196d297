import SheetLint.Proofs.Text.Ascii
import SheetLint.Rule

/-!
# Words and what ends them

A word is described by the characters it is made of and found by taking the longest run of them. The
two agree wherever the word is followed by a character that it cannot contain, which is the case in
all shapes: the underscore, the colon and the terminators are no letters and no digits. So a split
of a text into words is the only one, and it does not depend on how the words are looked for.
-/

namespace SheetLint

open Text

theorem Line.text_ofString (number : Nat) (source : String) :
    (Line.ofString number source).text.toList = trim source.toList := by
  simp [Line.ofString, trim]

theorem Line.trimStart_raw_ofString (number : Nat) (source : String) :
    trimStart (Line.ofString number source).raw.toList = trim source.toList := by
  simp [Line.ofString, trim]

/-- What a line is told, if anything is wrong with it. -/
def Line.message? (line : Line) (role : Role) (space : String) : Option String :=
  (line.fault? role space).map Fault.message

theorem Line.message?_of_forbidden {line : Line} {kind : LineKind} {role : Role} {fault : Fault}
    (hkind : line.kind = some kind) (hrule : Rule.find? kind role = some (.forbidden fault))
    (space : String) : line.message? role space = some fault.message := by
  simp [message?, Line.fault?, hkind, hrule, Rule.fault?]

theorem Line.message?_of_unruled {line : Line} {kind : LineKind} {role : Role}
    (hkind : line.kind = some kind) (hrule : Rule.find? kind role = none) (space : String) :
    line.message? role space = none := by
  simp [message?, Line.fault?, hkind, hrule]

theorem Line.message?_of_shaped {line : Line} {kind : LineKind} {role : Role} {shape : Shape}
    {fault : Fault} {form : Prop} [Decidable form] {space : String}
    (hkind : line.kind = some kind) (hrule : Rule.find? kind role = some (.shaped shape fault))
    (hform : shape.accepts line space = true ↔ form) :
    line.message? role space = if form then none else some fault.message := by
  simp only [message?, Line.fault?, hkind, hrule, Rule.fault?, hform]
  split <;> rfl

theorem begins_eq_true_iff {p : Char → Bool} {cs : List Char} :
    begins p cs = true ↔ ∃ c rest, cs = c :: rest ∧ p c = true := by
  cases cs with
  | nil => simp [begins]
  | cons c cs => simp [begins]

theorem begins_append {p : Char → Bool} {cs : List Char} (h : cs ≠ []) (rest : List Char) :
    begins p (cs ++ rest) = begins p cs := by
  cases cs with
  | nil => exact absurd rfl h
  | cons c cs => rfl

theorem begins_dropWhile (p : Char → Bool) (cs : List Char) :
    begins p (cs.dropWhile p) = false := by
  induction cs with
  | nil => rfl
  | cons c cs ih =>
    by_cases hc : p c = true
    · simpa [hc] using ih
    · simp [hc, begins]

theorem all_takeWhile {p : Char → Bool} {cs : List Char} :
    ∀ c ∈ cs.takeWhile p, p c = true :=
  List.all_eq_true.mp List.all_takeWhile

/-- A run that is followed by nothing of its kind is the longest one. -/
theorem takeWhile_append_of_begins {p : Char → Bool} {run rest : List Char}
    (hrun : ∀ c ∈ run, p c = true) (hrest : begins p rest = false) :
    (run ++ rest).takeWhile p = run := by
  rw [List.takeWhile_append_of_pos hrun]
  cases rest with
  | nil => simp
  | cons c rest => simp [show p c = false from hrest]

theorem dropWhile_append_of_begins {p : Char → Bool} {run rest : List Char}
    (hrun : ∀ c ∈ run, p c = true) (hrest : begins p rest = false) :
    (run ++ rest).dropWhile p = rest := by
  rw [List.dropWhile_append_of_pos hrun]
  cases rest with
  | nil => rfl
  | cons c rest => simp [show p c = false from hrest]

/-- One character of `first` and then characters of `more`, at least one. -/
def IsWord (first more : Char → Bool) (cs : List Char) : Prop :=
  ∃ c run, cs = c :: run ∧ first c = true ∧ run ≠ [] ∧ ∀ d ∈ run, more d = true

theorem isWord_cons_iff {first more : Char → Bool} {c : Char} {run : List Char} :
    IsWord first more (c :: run) ↔ first c = true ∧ run ≠ [] ∧ run.all more = true := by
  rw [List.all_eq_true]
  constructor
  · rintro ⟨c', run', hcs, hword⟩
    cases hcs
    exact hword
  · rintro hword
    exact ⟨c, run, rfl, hword⟩

instance {first more : Char → Bool} : DecidablePred (IsWord first more)
  | [] => isFalse (by rintro ⟨c, run, hcs, -⟩; cases hcs)
  | _ :: _ => decidable_of_iff _ isWord_cons_iff.symm

theorem word?_eq_some_iff {first more : Char → Bool} {cs word rest : List Char} :
    word? first more cs = some (word, rest) ↔
      IsWord first more word ∧ cs = word ++ rest ∧ begins more rest = false := by
  constructor
  · intro h
    cases cs with
    | nil => simp [word?] at h
    | cons c cs =>
      by_cases hc : first c = true ∧ cs.takeWhile more ≠ []
      · simp only [word?, hc.1, Bool.true_and, Bool.not_eq_true', List.isEmpty_eq_false_iff, hc.2,
          ne_eq, not_false_eq_true, ite_true, Option.some.injEq, Prod.mk.injEq] at h
        obtain ⟨rfl, rfl⟩ := h
        exact ⟨⟨c, _, rfl, hc.1, hc.2, all_takeWhile⟩, by simp, begins_dropWhile more cs⟩
      · rw [word?, if_neg ?_] at h
        · cases h
        · intro htake
          simp only [Bool.and_eq_true, Bool.not_eq_true', List.isEmpty_eq_false_iff] at htake
          exact hc htake
  · rintro ⟨⟨c, run, rfl, hc, hne, hrun⟩, rfl, hrest⟩
    have ht := takeWhile_append_of_begins hrun hrest
    have hd := dropWhile_append_of_begins hrun hrest
    simp [word?, ht, hd, hc, hne]

/-- Where the word ends is settled by what follows it. -/
theorem IsWord.append_unique {first more : Char → Bool} {word word' rest rest' : List Char}
    (hword : IsWord first more word) (hword' : IsWord first more word')
    (hrest : begins more rest = false) (hrest' : begins more rest' = false)
    (heq : word ++ rest = word' ++ rest') : word = word' ∧ rest = rest' := by
  have hfound := word?_eq_some_iff.mpr ⟨hword, rfl, hrest⟩
  have hfound' := word?_eq_some_iff.mpr ⟨hword', heq, hrest'⟩
  rw [hfound] at hfound'
  simpa using hfound'

/-- The word of a namespace: a capital letter and then letters. -/
abbrev IsSpaceWord : List Char → Prop := IsWord Char.isUpper Char.isAlpha

/-- The word of a name inside a namespace: a small letter and then letters and digits. -/
abbrev IsOwnWord : List Char → Prop := IsWord Char.isLower Char.isAlphanum

theorem namespaced?_eq_some_iff {cs found rest : List Char} :
    namespaced? cs = some (found, rest) ↔ ∃ own, IsSpaceWord found ∧ IsOwnWord own ∧
      cs = found ++ '_' :: (own ++ rest) ∧ begins Char.isAlphanum rest = false := by
  constructor
  · intro h
    rw [namespaced?] at h
    split at h
    · next space behind hspace =>
      obtain ⟨hword, rfl, -⟩ := word?_eq_some_iff.mp hspace
      split at h
      · next own rest' hown =>
        obtain ⟨hsmall, rfl, hrest⟩ := word?_eq_some_iff.mp hown
        simp only [Option.some.injEq, Prod.mk.injEq] at h
        obtain ⟨rfl, rfl⟩ := h
        exact ⟨own, hword, hsmall, rfl, hrest⟩
      · simp at h
    · simp at h
  · rintro ⟨own, hword, hown, rfl, hrest⟩
    have hspace : word? Char.isUpper Char.isAlpha (found ++ '_' :: (own ++ rest)) =
        some (found, '_' :: (own ++ rest)) :=
      word?_eq_some_iff.mpr ⟨hword, rfl, rfl⟩
    have hown' : word? Char.isLower Char.isAlphanum (own ++ rest) = some (own, rest) :=
      word?_eq_some_iff.mpr ⟨hown, rfl, hrest⟩
    simp [namespaced?, hspace, hown']

/-- A namespace, an underscore and a name can be told apart in one way only. -/
theorem namespaced_append_unique {found found' own own' rest rest' : List Char}
    (hspace : IsSpaceWord found) (hspace' : IsSpaceWord found') (hown : IsOwnWord own)
    (hown' : IsOwnWord own') (hrest : begins Char.isAlphanum rest = false)
    (hrest' : begins Char.isAlphanum rest' = false)
    (heq : found ++ '_' :: (own ++ rest) = found' ++ '_' :: (own' ++ rest')) :
    found = found' ∧ own = own' ∧ rest = rest' := by
  obtain ⟨hfound, hbehind⟩ := hspace.append_unique hspace' rfl rfl heq
  obtain ⟨hname, hend⟩ := hown.append_unique hown' hrest hrest' (List.cons.inj hbehind).2
  exact ⟨hfound, hname, hend⟩

theorem IsWord.ne_nil {first more : Char → Bool} {word : List Char} (h : IsWord first more word) :
    word ≠ [] := by
  obtain ⟨c, run, rfl, -⟩ := h
  exact List.cons_ne_nil c run

theorem IsWord.forall {first more : Char → Bool} {word : List Char} {P : Char → Prop}
    (h : IsWord first more word) (hfirst : ∀ c, first c = true → P c)
    (hmore : ∀ c, more c = true → P c) : ∀ c ∈ word, P c := by
  obtain ⟨c, run, rfl, hc, -, hrun⟩ := h
  exact List.forall_mem_cons.mpr ⟨hfirst c hc, fun d hd => hmore d (hrun d hd)⟩

theorem IsSpaceWord.isAlpha {cs : List Char} (h : IsSpaceWord cs) : ∀ c ∈ cs, c.isAlpha = true :=
  h.forall (fun _ => isAlpha_of_isUpper) fun _ => id

theorem IsOwnWord.isAlphanum {cs : List Char} (h : IsOwnWord cs) :
    ∀ c ∈ cs, c.isAlphanum = true :=
  h.forall (fun _ hc => isAlphanum_of_isAlpha (isAlpha_of_isLower hc)) fun _ => id

theorem IsSpaceWord.isAscii {cs : List Char} (h : IsSpaceWord cs) : IsAscii cs :=
  fun c hc => toNat_lt_of_isAlphanum (isAlphanum_of_isAlpha (h.isAlpha c hc))

theorem not_isBlank_of_isAlphanum {c : Char} (h : c.isAlphanum = true) : isBlank c = false := by
  have := toNat_of_isAlphanum h
  simp only [isBlank, Bool.or_eq_false_iff, Bool.and_eq_false_iff, decide_eq_false_iff_not,
    beq_eq_false_iff_ne]
  omega

theorem endsPlaceholder_iff {c : Char} :
    endsPlaceholder c = true ↔ c ∈ ['{', ',', ':', '.', ' '] := by
  simp [endsPlaceholder]

theorem endsClassSpace_iff {c : Char} :
    endsClassSpace c = true ↔ c ∈ ['{', ',', ':', '.', '-', ' '] := by
  simp [endsClassSpace]

/-- What holds of the five characters that end a placeholder or a class. -/
theorem forall_terminator {P : Char → Prop} (h : P '{' ∧ P ',' ∧ P ':' ∧ P '.' ∧ P ' ') {c : Char}
    (hc : c ∈ ['{', ',', ':', '.', ' ']) : P c := by
  obtain ⟨hbrace, hcomma, hcolon, hdot, hspace⟩ := h
  simp only [List.mem_cons, List.not_mem_nil, or_false] at hc
  rcases hc with rfl | rfl | rfl | rfl | rfl
  · exact hbrace
  · exact hcomma
  · exact hcolon
  · exact hdot
  · exact hspace

theorem not_isAlphanum_of_endsPlaceholder {c : Char} (h : endsPlaceholder c = true) :
    c.isAlphanum = false :=
  forall_terminator (P := fun c => c.isAlphanum = false) (by decide) (endsPlaceholder_iff.mp h)

theorem afterNamespace?_eq_some_iff {space subject rest : List Char} :
    afterNamespace? space subject = some rest ↔
      ∃ head, subject = head ++ rest ∧ byteLength head = byteLength space ∧
        lowercase head = space := by
  constructor
  · intro h
    rw [afterNamespace?] at h
    split at h
    · next head rest' hcut =>
      split at h
      · next hlow =>
        cases h
        obtain ⟨hsub, hlen⟩ := cutAtByte?_eq_some_iff.mp hcut
        exact ⟨head, hsub, hlen, hlow⟩
      · simp at h
    · simp at h
  · rintro ⟨head, hsub, hlen, hlow⟩
    rw [afterNamespace?, cutAtByte?_eq_some_iff.mpr ⟨hsub, hlen⟩]
    exact if_pos hlow

end SheetLint
