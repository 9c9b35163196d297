import Mathlib.Data.String.Basic
import SheetLint.Proofs.Text.Ascii

/-!
# Encoding and reading back

The bytes of one character are one of four kinds of sequence, by the size of its number, and the
reader is inside a sequence of one of these kinds or outside any. Everything about encoded texts
follows from the kinds: the reader gives back the text, texts compare like their bytes, whatever is
no text is shown with a U+FFFD, and a text that is read can be cut at an ASCII character exactly
where the bytes can be cut at its byte.
-/

namespace SheetLint.Text

/-- The bytes that stand for a number. -/
inductive Encoding (n : Nat) : Bytes → Prop where
  | one {a : UInt8} (high : n < 0x80) (ha : a.toNat = n) : Encoding n [a]
  | two {a b : UInt8} (low : 0x80 ≤ n) (high : n < 0x800) (ha : a.toNat = 0xC0 + n / 0x40)
      (hb : b.toNat = 0x80 + n % 0x40) : Encoding n [a, b]
  | three {a b c : UInt8} (low : 0x800 ≤ n) (high : n < 0x10000) (ha : a.toNat = 0xE0 + n / 0x1000)
      (hb : b.toNat = 0x80 + n / 0x40 % 0x40) (hc : c.toNat = 0x80 + n % 0x40) :
      Encoding n [a, b, c]
  | four {a b c d : UInt8} (low : 0x10000 ≤ n) (high : n < 0x110000)
      (ha : a.toNat = 0xF0 + n / 0x40000) (hb : b.toNat = 0x80 + n / 0x1000 % 0x40)
      (hc : c.toNat = 0x80 + n / 0x40 % 0x40) (hd : d.toNat = 0x80 + n % 0x40) :
      Encoding n [a, b, c, d]

theorem Encoding.of_char (c : Char) : Encoding c.toNat (String.utf8EncodeChar c) := by
  have hvalid : c.toNat < 0xD800 ∨ 0xDFFF < c.toNat ∧ c.toNat < 0x110000 := c.valid
  have hval : c.val.toNat = c.toNat := rfl
  simp only [String.utf8EncodeChar, hval]
  split
  · next h =>
    refine .one (by omega) ?_
    rw [UInt8.toNat_ofNat']
    omega
  split
  · next h =>
    refine .two (by omega) (by omega) ?_ ?_ <;> rw [UInt8.toNat_ofNat'] <;> omega
  split
  · next h =>
    refine .three (by omega) (by omega) ?_ ?_ ?_ <;> rw [UInt8.toNat_ofNat'] <;> omega
  · next h =>
    refine .four (by omega) (by omega) ?_ ?_ ?_ ?_ <;> rw [UInt8.toNat_ofNat'] <;> omega

theorem isContinuation_iff {b : UInt8} :
    isContinuation b = true ↔ 0x80 ≤ b.toNat ∧ b.toNat < 0xC0 := by
  simp [isContinuation]

/-- Inside a sequence, a byte in the range is taken. -/
theorem readByte_inside {value more low high : Nat} {b : UInt8} (hcont : isContinuation b = true)
    (hlow : low ≤ b.toNat) (hhigh : b.toNat ≤ high) :
    readByte (.inside value more low high) b =
      match more with
      | 0 => ([Char.ofNat (value * 0x40 + b.toNat % 0x40)], .idle)
      | more + 1 => ([], .inside (value * 0x40 + b.toNat % 0x40) more 0x80 0xBF) := by
  cases more <;> simp [readByte, hcont, hlow, hhigh]

theorem readFrom_last {value low high : Nat} {b : UInt8} (hcont : isContinuation b = true)
    (hlow : low ≤ b.toNat) (hhigh : b.toNat ≤ high) (bs : Bytes) :
    readFrom (.inside value 0 low high) (b :: bs) =
      Char.ofNat (value * 0x40 + b.toNat % 0x40) :: readFrom .idle bs := by
  rw [readFrom, readByte_inside hcont hlow hhigh]
  rfl

theorem readFrom_more {value more low high : Nat} {b : UInt8} (hcont : isContinuation b = true)
    (hlow : low ≤ b.toNat) (hhigh : b.toNat ≤ high) (bs : Bytes) :
    readFrom (.inside value (more + 1) low high) (b :: bs) =
      readFrom (.inside (value * 0x40 + b.toNat % 0x40) more 0x80 0xBF) bs := by
  rw [readFrom, readByte_inside hcont hlow hhigh]
  rfl

theorem readFrom_first {a : UInt8} {state : Reading} (h : readFirst a = ([], state)) (bs : Bytes) :
    readFrom .idle (a :: bs) = readFrom state bs := by
  rw [readFrom, readByte, h]
  rfl

theorem readFirst_two {a : UInt8} (hlow : 0xC2 ≤ a.toNat) (hhigh : a.toNat < 0xE0) :
    readFirst a = ([], .inside (a.toNat % 0x20) 0 0x80 0xBF) := by
  unfold readFirst
  rw [if_neg (by omega), if_neg (by omega), if_pos hhigh]

/-- The first of three bytes narrows the range of the second, when it is the least one or the one
in front of the surrogates. -/
theorem readFirst_three {a : UInt8} (hlow : 0xE0 ≤ a.toNat) (hhigh : a.toNat < 0xF0) :
    ∃ low high, readFirst a = ([], .inside (a.toNat % 0x10) 1 low high) ∧
      low = (if a.toNat = 0xE0 then 0xA0 else 0x80) ∧
      high = if a.toNat = 0xED then 0x9F else 0xBF := by
  unfold readFirst
  rw [if_neg (by omega), if_neg (by omega), if_neg (by omega)]
  by_cases he : a.toNat = 0xE0
  · simp [he]
  · by_cases hd : a.toNat = 0xED
    · simp [hd]
    · simp [he, hd, hhigh]

/-- The first of four bytes narrows the range of the second, when it is the least one or the
greatest. -/
theorem readFirst_four {a : UInt8} (hlow : 0xF0 ≤ a.toNat) (hhigh : a.toNat ≤ 0xF4) :
    ∃ low high, readFirst a = ([], .inside (a.toNat % 0x08) 2 low high) ∧
      low = (if a.toNat = 0xF0 then 0x90 else 0x80) ∧
      high = if a.toNat = 0xF4 then 0x8F else 0xBF := by
  unfold readFirst
  rw [if_neg (by omega), if_neg (by omega), if_neg (by omega)]
  by_cases he : a.toNat = 0xF0
  · simp [he]
  · by_cases hd : a.toNat = 0xF4
    · simp [hd]
    · have hlt : a.toNat < 0xF4 := by omega
      have hge : ¬ a.toNat < 0xF0 := by omega
      have h0 : ¬ a.toNat = 0xE0 := by omega
      have h1 : ¬ a.toNat = 0xED := by omega
      simp [he, hd, hlt, hge, h0, h1]

theorem readFirst_above {a : UInt8} (h : 0xF4 < a.toNat) : readFirst a = ([replacement], .idle) := by
  have hone : ¬ a.toNat < 0x80 := by omega
  have hnone : ¬ a.toNat < 0xC2 := by omega
  have htwo : ¬ a.toNat < 0xE0 := by omega
  have hthree : ¬ a.toNat < 0xF0 := by omega
  have hfour : ¬ a.toNat < 0xF4 := by omega
  have h0 : ¬ a.toNat = 0xE0 := by omega
  have h1 : ¬ a.toNat = 0xED := by omega
  have h2 : ¬ a.toNat = 0xF0 := by omega
  have h3 : ¬ a.toNat = 0xF4 := by omega
  simp [readFirst, hone, hnone, htwo, hthree, hfour, h0, h1, h2, h3]

/-- A first byte is ASCII, begins no sequence, or begins one of two, three or four bytes. -/
theorem readFirst_cases (a : UInt8) :
    (a.toNat < 0x80 ∧ readFirst a = ([Char.ofNat a.toNat], .idle)) ∨
    (0x80 ≤ a.toNat ∧ readFirst a = ([replacement], .idle)) ∨
    (0xC2 ≤ a.toNat ∧ a.toNat < 0xE0 ∧
      readFirst a = ([], .inside (a.toNat % 0x20) 0 0x80 0xBF)) ∨
    (0xE0 ≤ a.toNat ∧ a.toNat < 0xF0 ∧ ∃ low high,
      readFirst a = ([], .inside (a.toNat % 0x10) 1 low high) ∧
        low = (if a.toNat = 0xE0 then 0xA0 else 0x80) ∧
        high = if a.toNat = 0xED then 0x9F else 0xBF) ∨
    (0xF0 ≤ a.toNat ∧ a.toNat ≤ 0xF4 ∧ ∃ low high,
      readFirst a = ([], .inside (a.toNat % 0x08) 2 low high) ∧
        low = (if a.toNat = 0xF0 then 0x90 else 0x80) ∧
        high = if a.toNat = 0xF4 then 0x8F else 0xBF) := by
  by_cases hone : a.toNat < 0x80
  · refine Or.inl ⟨hone, ?_⟩
    rw [readFirst, if_pos hone]
  by_cases hnone : a.toNat < 0xC2
  · refine Or.inr (Or.inl ⟨by omega, ?_⟩)
    rw [readFirst, if_neg hone, if_pos hnone]
  right
  by_cases htwo : a.toNat < 0xE0
  · exact Or.inr (Or.inl ⟨by omega, htwo, readFirst_two (by omega) htwo⟩)
  by_cases hthree : a.toNat < 0xF0
  · exact Or.inr (Or.inr (Or.inl ⟨by omega, hthree, readFirst_three (by omega) hthree⟩))
  by_cases hfour : a.toNat ≤ 0xF4
  · exact Or.inr (Or.inr (Or.inr ⟨by omega, hfour, readFirst_four (by omega) hfour⟩))
  · exact Or.inl ⟨by omega, readFirst_above (by omega)⟩

/-- Inside a sequence, a byte is in the range, or it is read as a first byte behind a U+FFFD. -/
theorem readByte_inside_cases (value more low high : Nat) (b : UInt8) :
    (isContinuation b = true ∧ low ≤ b.toNat ∧ b.toNat ≤ high) ∨
      readByte (.inside value more low high) b =
        (replacement :: (readFirst b).1, (readFirst b).2) := by
  by_cases htake : (isContinuation b && low ≤ b.toNat && b.toNat ≤ high) = true
  · simp only [Bool.and_eq_true, decide_eq_true_iff] at htake
    exact Or.inl ⟨htake.1.1, htake.1.2, htake.2⟩
  · right
    rw [readByte, if_neg htake]

theorem readFrom_cons (state : Reading) (b : UInt8) (bs : Bytes) :
    readFrom state (b :: bs) = (readByte state b).1 ++ readFrom (readByte state b).2 bs := by
  rw [readFrom]

theorem readFrom_encoding {n : Nat} {bs : Bytes} (h : Encoding n bs)
    (hvalid : n < 0xD800 ∨ 0xDFFF < n) (rest : Bytes) :
    readFrom .idle (bs ++ rest) = Char.ofNat n :: readFrom .idle rest := by
  cases h with
  | one high ha =>
    rw [List.singleton_append, readFrom_ascii (by omega), ha]
    rfl
  | two low high ha hb =>
    rw [List.cons_append, readFrom_first (readFirst_two (by omega) (by omega)),
      List.singleton_append,
      readFrom_last (isContinuation_iff.mpr (by omega)) (by omega) (by omega)]
    congr 2
    omega
  | @three a b c low high ha hb hc =>
    obtain ⟨low', high', hfirst, hlow, hhigh⟩ := readFirst_three (a := a) (by omega) (by omega)
    rw [List.cons_append, readFrom_first hfirst, List.cons_append,
      readFrom_more (isContinuation_iff.mpr (by omega)) (by split at hlow <;> omega)
        (by split at hhigh <;> omega),
      List.singleton_append,
      readFrom_last (isContinuation_iff.mpr (by omega)) (by omega) (by omega)]
    congr 2
    omega
  | @four a b c d low high ha hb hc hd =>
    obtain ⟨low', high', hfirst, hlow, hhigh⟩ := readFirst_four (a := a) (by omega) (by omega)
    rw [List.cons_append, readFrom_first hfirst, List.cons_append,
      readFrom_more (isContinuation_iff.mpr (by omega)) (by split at hlow <;> omega)
        (by split at hhigh <;> omega),
      List.cons_append, readFrom_more (isContinuation_iff.mpr (by omega)) (by omega) (by omega),
      List.singleton_append,
      readFrom_last (isContinuation_iff.mpr (by omega)) (by omega) (by omega)]
    congr 2
    omega

theorem decodeLossy_encode (cs : List Char) : decodeLossy (encode cs) = cs := by
  induction cs with
  | nil => rfl
  | cons c cs ih =>
    have hvalid : c.toNat < 0xD800 ∨ 0xDFFF < c.toNat ∧ c.toNat < 0x110000 := c.valid
    have hfirst := readFrom_encoding (Encoding.of_char c) (by omega) (encode cs)
    rw [Char.ofNat_toNat] at hfirst
    rw [decodeLossy] at ih ⊢
    rw [encode, List.flatMap_cons, ← encode, hfirst, ih]

theorem isWellFormed_iff {bs : Bytes} : isWellFormed bs = true ↔ ∃ cs, bs = encode cs := by
  rw [isWellFormed, beq_iff_eq]
  constructor
  · intro h
    exact ⟨decodeLossy bs, h.symm⟩
  · rintro ⟨cs, rfl⟩
    rw [decodeLossy_encode]

theorem Encoding.lt_append {m n : Nat} {as bs : Bytes} (ha : Encoding m as) (hb : Encoding n bs)
    (h : m < n) (xs ys : Bytes) : as ++ xs < bs ++ ys := by
  cases ha <;> cases hb <;>
    simp only [List.cons_append, List.nil_append, List.cons_lt_cons_iff, UInt8.lt_iff_toNat_lt,
      ← UInt8.toNat_inj] <;> omega

theorem encode_cons (c : Char) (cs : List Char) :
    encode (c :: cs) = String.utf8EncodeChar c ++ encode cs := by
  rw [encode, List.flatMap_cons, encode]

theorem encode_lt_of_lt {cs ds : List Char} (h : cs < ds) : encode cs < encode ds := by
  induction h with
  | nil =>
    next d ds =>
    rw [encode_cons]
    cases he : String.utf8EncodeChar d with
    | nil => exact absurd he String.utf8EncodeChar_ne_nil
    | cons b bs => exact List.Lex.nil
  | rel h =>
    rw [encode_cons, encode_cons]
    exact (Encoding.of_char _).lt_append (Encoding.of_char _) (UInt32.lt_iff_toNat_lt.mp h) _ _
  | cons h ih =>
    rw [encode_cons, encode_cons]
    exact List.append_left_lt ih

theorem encode_lt_iff {cs ds : List Char} : encode cs < encode ds ↔ cs < ds := by
  constructor
  · intro h
    rcases lt_trichotomy cs ds with hlt | rfl | hgt
    · exact hlt
    · exact absurd h (List.lt_irrefl _)
    · exact absurd h (List.lt_asymm (encode_lt_of_lt hgt))
  · exact encode_lt_of_lt

theorem bytesOf_le_iff {s t : String} : bytesOf s ≤ bytesOf t ↔ s ≤ t := by
  rw [← List.not_lt, ← not_lt, String.lt_iff_toList_lt, bytesOf, bytesOf, encode_lt_iff]

theorem toNat_ofNat (n : Nat) : (Char.ofNat n).toNat = if n.isValidChar then n else 0 := by
  by_cases hvalid : n.isValidChar
  · rw [if_pos hvalid, Char.ofNat, dif_pos hvalid]
    rfl
  · rw [if_neg hvalid, Char.ofNat, dif_neg hvalid]
    rfl

theorem toNat_ofNat_ascii {n : Nat} (h : n < 0x80) : (Char.ofNat n).toNat = n := by
  have hvalid : n.isValidChar := Or.inl (by omega)
  rw [toNat_ofNat, if_pos hvalid]

theorem encode_ofNat_toNat {b : UInt8} (h : b.toNat < 0x80) :
    String.utf8EncodeChar (Char.ofNat b.toNat) = [b] := by
  have hval : (Char.ofNat b.toNat).val.toNat = b.toNat := toNat_ofNat_ascii h
  simp only [String.utf8EncodeChar, hval]
  rw [if_pos (by omega), UInt8.ofNat_toNat]

theorem Encoding.unique {n : Nat} {as bs : Bytes} (ha : Encoding n as) (hb : Encoding n bs) :
    as = bs := by
  cases ha <;> cases hb <;> simp only [List.cons.injEq, ← UInt8.toNat_inj, and_true] <;> omega

theorem Encoding.eq_utf8EncodeChar {n : Nat} {bs : Bytes} (h : Encoding n bs)
    (hvalid : n < 0xD800 ∨ 0xDFFF < n) : bs = String.utf8EncodeChar (Char.ofNat n) := by
  have hlt : n < 0x110000 := by
    cases h <;> omega
  have hnat : (Char.ofNat n).toNat = n := by
    rw [toNat_ofNat, if_pos (by unfold Nat.isValidChar; omega)]
  have hchar := Encoding.of_char (Char.ofNat n)
  rw [hnat] at hchar
  exact h.unique hchar

/-- A sequence that is not replaced goes on with a byte in the range, and if more bytes belong to it,
it is not replaced behind that byte. -/
theorem exists_continuation {value more low high : Nat} {bs : Bytes}
    (h : replacement ∉ readFrom (.inside value more low high) bs) :
    ∃ b rest, bs = b :: rest ∧ (0x80 ≤ b.toNat ∧ b.toNat < 0xC0) ∧ low ≤ b.toNat ∧
      b.toNat ≤ high ∧ ∀ left, more = left + 1 →
        replacement ∉ readFrom (.inside (value * 0x40 + b.toNat % 0x40) left 0x80 0xBF) rest := by
  cases bs with
  | nil => exact absurd (List.mem_singleton_self _) h
  | cons b rest =>
    rcases readByte_inside_cases value more low high b with ⟨hcont, hlow, hhigh⟩ | hread
    · refine ⟨b, rest, rfl, isContinuation_iff.mp hcont, hlow, hhigh, ?_⟩
      rintro left rfl
      rwa [readFrom_more hcont hlow hhigh] at h
    · rw [readFrom_cons, hread] at h
      exact absurd List.mem_cons_self h

theorem exists_encoding {a : UInt8} {bs : Bytes} (h : replacement ∉ decodeLossy (a :: bs)) :
    ∃ n front rest, a :: bs = front ++ rest ∧ Encoding n front ∧ (n < 0xD800 ∨ 0xDFFF < n) := by
  rw [decodeLossy] at h
  rcases readFirst_cases a with ⟨hone, -⟩ | ⟨-, hfirst⟩ | ⟨htwo, htwo', hfirst⟩ |
    ⟨hthree, hthree', low, high, hfirst, hlow, hhigh⟩ |
    ⟨hfour, hfour', low, high, hfirst, hlow, hhigh⟩
  · exact ⟨a.toNat, [a], bs, rfl, .one hone rfl, by omega⟩
  · rw [readFrom_cons, readByte, hfirst] at h
    exact absurd List.mem_cons_self h
  · rw [readFrom_first hfirst] at h
    obtain ⟨b, rest, rfl, hb, -⟩ := exists_continuation h
    refine ⟨a.toNat % 0x20 * 0x40 + b.toNat % 0x40, [a, b], rest, rfl, .two ?_ ?_ ?_ ?_, ?_⟩ <;>
      omega
  · rw [readFrom_first hfirst] at h
    obtain ⟨b, rest, rfl, hb, hlb, hhb, h⟩ := exists_continuation h
    obtain ⟨c, rest, rfl, hc, -⟩ := exists_continuation (h 0 rfl)
    refine ⟨(a.toNat % 0x10 * 0x40 + b.toNat % 0x40) * 0x40 + c.toNat % 0x40, [a, b, c], rest, rfl,
      .three ?_ ?_ ?_ ?_ ?_, ?_⟩ <;> split at hlow <;> split at hhigh <;> omega
  · rw [readFrom_first hfirst] at h
    obtain ⟨b, rest, rfl, hb, hlb, hhb, h⟩ := exists_continuation h
    obtain ⟨c, rest, rfl, hc, -, -, h⟩ := exists_continuation (h 1 rfl)
    obtain ⟨d, rest, rfl, hd, -⟩ := exists_continuation (h 0 rfl)
    refine ⟨((a.toNat % 0x08 * 0x40 + b.toNat % 0x40) * 0x40 + c.toNat % 0x40) * 0x40 +
      d.toNat % 0x40, [a, b, c, d], rest, rfl, .four ?_ ?_ ?_ ?_ ?_ ?_, ?_⟩ <;>
      split at hlow <;> split at hhigh <;> omega

/-- What is read without a U+FFFD is a text, whose bytes these are. The induction takes one whole
character at a time, since the reader may not stop inside one. -/
theorem eq_encode_of_not_mem {bs : Bytes} (h : replacement ∉ decodeLossy bs) :
    bs = encode (decodeLossy bs) := by
  induction hn : bs.length using Nat.strong_induction_on generalizing bs with
  | h n ih =>
    cases bs with
    | nil => rfl
    | cons a bs =>
      obtain ⟨n, front, rest, hsplit, hfront, hvalid⟩ := exists_encoding h
      have hread : decodeLossy (front ++ rest) = Char.ofNat n :: decodeLossy rest :=
        readFrom_encoding hfront hvalid rest
      have hpos : 0 < front.length := by cases hfront <;> simp
      have hlen := congrArg List.length hsplit
      rw [List.length_append] at hlen
      rw [hsplit, hread] at h ⊢
      rw [encode_cons, ← hfront.eq_utf8EncodeChar hvalid,
        ← ih rest.length (by omega) (fun hm => h (List.mem_cons_of_mem _ hm)) rfl]

theorem eq_nil_of_decodeLossy {bs : Bytes} (h : decodeLossy bs = []) : bs = [] := by
  have hread := @eq_encode_of_not_mem bs (by simp [h])
  rw [hread, h]
  rfl

theorem decodeLossy_ne_nil {bs : Bytes} (h : bs ≠ []) : decodeLossy bs ≠ [] :=
  fun hread => h (eq_nil_of_decodeLossy hread)

/-- Each number that the sequence can still give is that of a character beyond ASCII. -/
def Reading.Beyond : Reading → Prop
  | .idle => True
  | .inside value more low high =>
    more ≤ 2 ∧ 0x80 ≤ low ∧ high < 0xC0 ∧
      0x80 ≤ (value * 0x40 + (low - 0x80)) * 0x40 ^ more ∧
      ((value * 0x40 + (high - 0x80) + 1) * 0x40 ^ more ≤ 0xD800 ∨
        0xE000 ≤ (value * 0x40 + (low - 0x80)) * 0x40 ^ more ∧
          (value * 0x40 + (high - 0x80) + 1) * 0x40 ^ more ≤ 0x110000)

theorem beyond_idle : Reading.idle.Beyond := trivial

theorem le_toNat_replacement : 0x80 ≤ replacement.toNat := by decide

theorem beyond_readFirst {b : UInt8} (h : 0x80 ≤ b.toNat) :
    (readFirst b).2.Beyond ∧ ∀ c ∈ (readFirst b).1, 0x80 ≤ c.toNat := by
  rcases readFirst_cases b with ⟨hone, -⟩ | ⟨-, hfirst⟩ | ⟨htwo, htwo', hfirst⟩ |
    ⟨hthree, hthree', low, high, hfirst, hlow, hhigh⟩ |
    ⟨hfour, hfour', low, high, hfirst, hlow, hhigh⟩
  · omega
  · rw [hfirst]
    exact ⟨trivial, by simp [le_toNat_replacement]⟩
  · rw [hfirst]
    refine ⟨?_, by simp⟩
    simp only [Reading.Beyond, Nat.pow_zero]
    omega
  · rw [hfirst]
    refine ⟨?_, by simp⟩
    simp only [Reading.Beyond, Nat.pow_one]
    split at hlow <;> split at hhigh <;> omega
  · rw [hfirst]
    refine ⟨?_, by simp⟩
    simp only [Reading.Beyond, Nat.reducePow]
    split at hlow <;> split at hhigh <;> omega

/-- A byte that is not ASCII gives no ASCII character, and the reader is beyond ASCII behind it. -/
theorem Reading.Beyond.readByte {state : Reading} (hstate : state.Beyond) {b : UInt8}
    (h : 0x80 ≤ b.toNat) :
    (readByte state b).2.Beyond ∧ ∀ c ∈ (readByte state b).1, 0x80 ≤ c.toNat := by
  cases state with
  | idle => exact beyond_readFirst h
  | inside value more low high =>
    obtain ⟨hmore, hlow, hhigh, hfirst, hlast⟩ := hstate
    rcases readByte_inside_cases value more low high b with ⟨hcont, hlb, hhb⟩ | hread
    · rw [readByte_inside hcont hlb hhb]
      cases more with
      | zero =>
        simp only [Nat.pow_zero, Nat.mul_one] at hfirst hlast
        have hvalid : (value * 0x40 + b.toNat % 0x40).isValidChar := by
          unfold Nat.isValidChar
          omega
        refine ⟨trivial, fun c hc => ?_⟩
        rw [List.mem_singleton.mp hc, toNat_ofNat, if_pos hvalid]
        omega
      | succ more =>
        refine ⟨?_, by simp⟩
        -- At most one byte is left behind the next one, so the powers are numbers.
        obtain rfl | rfl : more = 0 ∨ more = 1 := by omega
        · simp only [Reading.Beyond, Nat.reduceAdd, Nat.reducePow] at hfirst hlast ⊢
          omega
        · simp only [Reading.Beyond, Nat.reduceAdd, Nat.reducePow] at hfirst hlast ⊢
          omega
    · obtain ⟨hnext, hout⟩ := beyond_readFirst h
      rw [hread]
      exact ⟨hnext, List.forall_mem_cons.mpr ⟨le_toNat_replacement, hout⟩⟩

/-- A part without the separator lies in front of it. -/
theorem exists_eq_append_of_not_mem {α : Type*} {c : α} {out rest front back : List α}
    (h : out ++ rest = front ++ c :: back) (hout : c ∉ out) :
    ∃ mid, front = out ++ mid ∧ rest = mid ++ c :: back := by
  rcases List.append_eq_append_iff.mp h with ⟨mid, rfl, hrest⟩ | ⟨mid, rfl, hmid⟩
  · exact ⟨mid, rfl, hrest⟩
  · cases mid with
    | nil => exact ⟨[], by simp, by simpa using hmid.symm⟩
    | cons d mid =>
      rw [List.cons_append, List.cons.injEq] at hmid
      exact absurd (by simp [hmid.1]) hout

theorem not_mem_readFrom_nil {c : Char} (hc : c.toNat < 0x80) (state : Reading) :
    c ∉ readFrom state [] := by
  cases state with
  | idle => simp [readFrom]
  | inside value more low high =>
    rw [readFrom, List.mem_singleton]
    rintro rfl
    have := le_toNat_replacement
    omega

/-- Where an ASCII character is read its byte stands, and the bytes around it are read as if they
stood alone. -/
theorem exists_cut_of_readFrom {c : Char} (hc : c.toNat < 0x80) {bs : Bytes} {state : Reading}
    (hstate : state.Beyond) {front back : List Char} (h : readFrom state bs = front ++ c :: back) :
    ∃ before b behind, bs = before ++ b :: behind ∧ b.toNat = c.toNat ∧
      readFrom state before = front ∧ readFrom .idle behind = back := by
  induction bs generalizing state front with
  | nil =>
    exact absurd (h ▸ List.mem_append_right front List.mem_cons_self)
      (not_mem_readFrom_nil hc state)
  | cons b bs ih =>
    by_cases hb : b.toNat < 0x80
    · rw [readFrom_ascii hb] at h
      obtain ⟨mid, rfl, hmid⟩ := exists_eq_append_of_not_mem h (not_mem_readFrom_nil hc state)
      cases mid with
      | nil =>
        obtain ⟨hchar, hback⟩ := List.cons.inj hmid
        refine ⟨[], b, bs, rfl, ?_, by simp, hback⟩
        rw [← hchar, toNat_ofNat_ascii hb]
      | cons d mid =>
        rw [List.cons_append, List.cons.injEq] at hmid
        obtain ⟨rfl, hrest⟩ := hmid
        obtain ⟨before, a, behind, rfl, ha, rfl, hback⟩ := ih beyond_idle hrest
        exact ⟨b :: before, a, behind, rfl, ha, readFrom_ascii hb state before, hback⟩
    · obtain ⟨hnext, hout⟩ := hstate.readByte (b := b) (by omega)
      rw [readFrom_cons] at h
      have hnot : c ∉ (readByte state b).1 := fun hm => by
        have := hout c hm
        omega
      obtain ⟨mid, rfl, hmid⟩ := exists_eq_append_of_not_mem h hnot
      obtain ⟨before, a, behind, rfl, ha, rfl, hback⟩ := ih hnext hmid
      exact ⟨b :: before, a, behind, rfl, ha, readFrom_cons state b before, hback⟩

theorem decodeLossy_append_ascii {b : UInt8} (hb : b.toNat < 0x80) (before behind : Bytes) :
    decodeLossy (before ++ b :: behind) =
      decodeLossy before ++ Char.ofNat b.toNat :: decodeLossy behind :=
  readFrom_append_ascii hb before behind .idle

/-- The text can be cut at an ASCII character exactly where the bytes can be cut at its byte. -/
theorem decodeLossy_eq_append_iff {b : UInt8} (hb : b.toNat < 0x80) {bs : Bytes}
    {front back : List Char} :
    decodeLossy bs = front ++ Char.ofNat b.toNat :: back ↔
      ∃ before behind, bs = before ++ b :: behind ∧ decodeLossy before = front ∧
        decodeLossy behind = back := by
  constructor
  · intro h
    have hc : (Char.ofNat b.toNat).toNat < 0x80 := by rwa [toNat_ofNat_ascii hb]
    obtain ⟨before, a, behind, rfl, ha, hfront, hback⟩ :=
      exists_cut_of_readFrom hc beyond_idle h
    rw [toNat_ofNat_ascii hb, UInt8.toNat_inj] at ha
    exact ⟨before, behind, by rw [ha], hfront, hback⟩
  · rintro ⟨before, behind, rfl, rfl, rfl⟩
    exact decodeLossy_append_ascii hb before behind

theorem ofNat_mem_decodeLossy_iff {b : UInt8} (hb : b.toNat < 0x80) {bs : Bytes} :
    Char.ofNat b.toNat ∈ decodeLossy bs ↔ b ∈ bs := by
  constructor
  · intro h
    obtain ⟨front, back, hcut⟩ := List.append_of_mem h
    obtain ⟨before, behind, rfl, -, -⟩ := (decodeLossy_eq_append_iff hb).mp hcut
    simp
  · intro h
    obtain ⟨before, behind, rfl⟩ := List.append_of_mem h
    simp [decodeLossy_append_ascii hb]

/-- An ASCII character is read first exactly where its byte stands first. -/
theorem head?_decodeLossy_iff {b : UInt8} (hb : b.toNat < 0x80) {bs : Bytes} :
    (decodeLossy bs).head? = some (Char.ofNat b.toNat) ↔ bs.head? = some b := by
  rw [List.head?_eq_some_iff, List.head?_eq_some_iff]
  constructor
  · rintro ⟨back, hread⟩
    have hcut : decodeLossy bs = [] ++ Char.ofNat b.toNat :: back := hread
    obtain ⟨before, behind, rfl, hbefore, -⟩ := (decodeLossy_eq_append_iff hb).mp hcut
    exact ⟨behind, by rw [eq_nil_of_decodeLossy hbefore, List.nil_append]⟩
  · rintro ⟨behind, rfl⟩
    exact ⟨decodeLossy behind, decodeLossy_append_ascii hb [] behind⟩

end SheetLint.Text
