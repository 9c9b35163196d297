/-!
# Texts as UTF-8 bytes

Two views of a text as bytes. The first measures and cuts a list of characters by the bytes of its
encoding; a cut inside a character does not exist. The second reads arbitrary bytes and puts one
U+FFFD in the place of each maximal ill-formed part. The reader is a machine that takes one byte at
a time and remembers only what the sequence it is in still needs, so a byte below 128 can never be
taken for a part of a longer sequence.
-/

namespace SheetLint.Text

abbrev Bytes := List UInt8

def encode (cs : List Char) : Bytes := cs.flatMap String.utf8EncodeChar

def bytesOf (s : String) : Bytes := encode s.toList

/-- How many bytes the encoding of the text has. -/
def byteLength : List Char → Nat
  | [] => 0
  | c :: cs => c.utf8Size + byteLength cs

/-- Cut after the first `n` bytes. There is no cut inside a character or behind the end. -/
def cutAtByte? : Nat → List Char → Option (List Char × List Char)
  | 0, cs => some ([], cs)
  | _ + 1, [] => none
  | n + 1, c :: cs =>
    if c.utf8Size ≤ n + 1 then
      (cutAtByte? (n + 1 - c.utf8Size) cs).map fun (head, rest) => (c :: head, rest)
    else none

theorem cutAtByte?_eq_some_iff {n : Nat} {cs head rest : List Char} :
    cutAtByte? n cs = some (head, rest) ↔ cs = head ++ rest ∧ byteLength head = n := by
  induction cs generalizing n head rest with
  | nil =>
    cases n with
    | zero =>
      cases head with
      | nil => simp [cutAtByte?, byteLength, eq_comm]
      | cons d head => simp [cutAtByte?]
    | succ n =>
      cases head with
      | nil => simp [cutAtByte?, byteLength]
      | cons d head => simp [cutAtByte?]
  | cons c cs ih =>
    have hpos : 0 < c.utf8Size := c.utf8Size_pos
    cases n with
    | zero =>
      cases head with
      | nil => simp [cutAtByte?, byteLength, eq_comm]
      | cons d head =>
        simp only [cutAtByte?, Option.some.injEq, Prod.mk.injEq, byteLength, List.cons_append,
          List.cons.injEq]
        constructor
        · rintro ⟨h, _⟩
          exact absurd h (by simp)
        · rintro ⟨⟨rfl, _⟩, h⟩
          omega
    | succ n =>
      cases head with
      | nil =>
        simp only [cutAtByte?, byteLength]
        constructor
        · intro h
          split at h <;> simp at h
        · rintro ⟨_, h⟩
          omega
      | cons d head =>
        simp only [cutAtByte?, byteLength, List.cons_append, List.cons.injEq]
        constructor
        · intro h
          split at h
          · rename_i hle
            obtain ⟨⟨h1, h2⟩, h3, h4⟩ := Option.map_eq_some_iff.mp h
            simp only [Prod.mk.injEq, List.cons.injEq] at h4
            obtain ⟨⟨rfl, rfl⟩, rfl⟩ := h4
            obtain ⟨h5, h6⟩ := ih.mp h3
            exact ⟨⟨rfl, h5⟩, by omega⟩
          · simp at h
        · rintro ⟨⟨rfl, hcs⟩, hlen⟩
          have hle : c.utf8Size ≤ n + 1 := by omega
          rw [if_pos hle, ih.mpr ⟨hcs, by omega⟩]
          rfl

/-- What stands for an ill-formed part. -/
def replacement : Char := '\uFFFD'

/-- The reader between two bytes: outside any sequence, or inside one whose bytes so far give the
number `value`, which needs a continuation byte from `low` to `high` next and `more` others after
that. -/
inductive Reading where
  | idle
  | inside (value more low high : Nat)
deriving DecidableEq, Repr

def isContinuation (b : UInt8) : Bool := 0x80 ≤ b.toNat && b.toNat < 0xC0

/-- The first byte of a sequence. What no well-formed sequence starts with is replaced at once. The
ranges for the second byte leave out overlong forms, surrogates and numbers above U+10FFFF. -/
def readFirst (b : UInt8) : List Char × Reading :=
  let n := b.toNat
  if n < 0x80 then ([Char.ofNat n], .idle)
  else if n < 0xC2 then ([replacement], .idle)
  else if n < 0xE0 then ([], .inside (n % 0x20) 0 0x80 0xBF)
  else if n == 0xE0 then ([], .inside (n % 0x10) 1 0xA0 0xBF)
  else if n == 0xED then ([], .inside (n % 0x10) 1 0x80 0x9F)
  else if n < 0xF0 then ([], .inside (n % 0x10) 1 0x80 0xBF)
  else if n == 0xF0 then ([], .inside (n % 0x08) 2 0x90 0xBF)
  else if n < 0xF4 then ([], .inside (n % 0x08) 2 0x80 0xBF)
  else if n == 0xF4 then ([], .inside (n % 0x08) 2 0x80 0x8F)
  else ([replacement], .idle)

/-- One byte. A byte that the sequence cannot use ends it and is read again as a first byte. -/
def readByte : Reading → UInt8 → List Char × Reading
  | .idle, b => readFirst b
  | .inside value more low high, b =>
    if isContinuation b && low ≤ b.toNat && b.toNat ≤ high then
      let value := value * 0x40 + b.toNat % 0x40
      match more with
      | 0 => ([Char.ofNat value], .idle)
      | more + 1 => ([], .inside value more 0x80 0xBF)
    else
      let (out, next) := readFirst b
      (replacement :: out, next)

/-- The characters still to come when the reader has the bytes before it. -/
def readFrom : Reading → Bytes → List Char
  | .idle, [] => []
  | .inside .., [] => [replacement]
  | state, b :: bs =>
    let (out, next) := readByte state b
    out ++ readFrom next bs

/-- The text of arbitrary bytes, with a U+FFFD for each maximal ill-formed part. -/
def decodeLossy (bs : Bytes) : List Char := readFrom .idle bs

/-- The bytes of a path or a file as a text that can be shown. -/
def shown (bs : Bytes) : String := String.ofList (decodeLossy bs)

/-- Bytes that are the encoding of a text. -/
def isWellFormed (bs : Bytes) : Bool := encode (decodeLossy bs) == bs

theorem readFrom_ascii {b : UInt8} (hb : b.toNat < 0x80) (state : Reading) (bs : Bytes) :
    readFrom state (b :: bs) = readFrom state [] ++ Char.ofNat b.toNat :: readFrom .idle bs := by
  cases state with
  | idle => simp [readFrom, readByte, readFirst, hb]
  | inside value more low high =>
    have hc : isContinuation b = false := by
      simp only [isContinuation, Bool.and_eq_false_iff, decide_eq_false_iff_not]
      omega
    simp [readFrom, readByte, readFirst, hb, hc]

/-- A byte below 128 stands for itself wherever it is, and what is before and behind it is read as
if it stood alone. -/
theorem readFrom_append_ascii {b : UInt8} (hb : b.toNat < 0x80) (before behind : Bytes)
    (state : Reading) :
    readFrom state (before ++ b :: behind) =
      readFrom state before ++ Char.ofNat b.toNat :: readFrom .idle behind := by
  induction before generalizing state with
  | nil => exact readFrom_ascii hb state behind
  | cons a before ih => simp [readFrom, ih]

end SheetLint.Text
