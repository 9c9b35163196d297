/-!
# Texts without control sequences

A terminal does not show every character of a text. It hides controls, and an escape opens a
sequence that hides what stands in it. The kinds of sequences differ in what ends them: a final
character, a bell, or a string terminator. A new escape ends any of them and opens the next one. A
text that is to be shown as it is loses all that a terminal would hide.

White space has no place in the short sequences, those without a string in them. It interrupts such
a sequence and is shown, with the text behind it, until the next control takes the sequence up.
-/

namespace SheetLint.Text

/-- The controls that only move on within a text. -/
def isLayout (c : Char) : Bool := ['\t', '\n', '\x0c', '\r'].contains c

/-- The character is shown where no sequence hides it. -/
def isShown (c : Char) : Bool := isLayout c || (' ' ≤ c && c != '\x7f')

/-- The byte of a string terminator is in the encoding of the character. -/
def endsString (c : Char) : Bool := (String.utf8EncodeChar c).contains 0x9C

/-- A short sequence that waits for its final character: right behind the escape, behind the
intermediate characters of a designation, or behind the bracket of a control sequence. -/
inductive Opening where
  | escape
  | designation
  | control
deriving DecidableEq, Repr

/-- Where a reader of control sequences stands: outside them, or at a part of one. The content of a
device control string comes behind parameters and intermediate characters, which are told apart
since not every order of them is possible. -/
inductive Sequence where
  | outside
  | within (opening : Opening)
  | interrupted (opening : Opening)
  | deviceStart
  | deviceParameters
  | deviceIntermediates
  | command
  | string
deriving DecidableEq, Repr

/-- Where the reader stands behind a character of a short sequence. What means nothing there is
passed over. -/
def Opening.next : Opening → Char → Sequence
  | escape, c =>
    if c = '[' then .within control
    else if c = ']' then .command
    else if c = 'P' then .deviceStart
    else if c = 'X' ∨ c = '^' ∨ c = '_' then .string
    else if ' ' ≤ c ∧ c ≤ '/' then .within designation
    else if '0' ≤ c ∧ c ≤ '~' then .outside
    else .within escape
  | designation, c => if '0' ≤ c ∧ c ≤ '~' then .outside else .within designation
  | control, c => if '@' ≤ c ∧ c ≤ '~' then .outside else .within control

namespace Sequence

/-- Where the reader stands behind the character. An escape, and the two controls that cancel a
sequence, mean the same everywhere. A character that is not in ASCII ends what was interrupted. -/
def next (state : Sequence) (c : Char) : Sequence :=
  if c = '\x1b' then within .escape
  else if c = '\x18' ∨ c = '\x1a' then outside
  else
    match state with
    | outside => outside
    | within opening => if isLayout c then interrupted opening else opening.next c
    | interrupted opening =>
      if !isShown c then within opening
      else if c.toNat < 128 then interrupted opening
      else outside
    | deviceStart =>
      if ' ' ≤ c ∧ c ≤ '/' then deviceIntermediates
      else if '0' ≤ c ∧ c ≤ '?' then deviceParameters
      else if '@' ≤ c ∧ c ≤ '~' then string
      else deviceStart
    | deviceParameters =>
      if ' ' ≤ c ∧ c ≤ '/' then deviceIntermediates
      else if '<' ≤ c ∧ c ≤ '~' then string
      else deviceParameters
    | deviceIntermediates => if '0' ≤ c ∧ c ≤ '~' then string else deviceIntermediates
    | command => if c = '\x07' then outside else command
    | string => if endsString c then outside else string

/-- The character is shown where the reader stands. -/
def shows : Sequence → Char → Bool
  | outside, c | interrupted _, c => isShown c
  | within _, c => isLayout c
  | deviceStart, _ | deviceParameters, _ | deviceIntermediates, _ | command, _ | string, _ => false

theorem isShown_of_shows {state : Sequence} {c : Char} (h : state.shows c = true) :
    isShown c = true := by
  cases state <;> simp_all [shows, isShown]

theorem next_outside {c : Char} (h : isShown c = true) : outside.next c = outside := by
  have hescape : c ≠ '\x1b' := by
    rintro rfl
    exact absurd h (by decide)
  simp [next, hescape]

end Sequence

/-- The characters that are shown when the reader stands at `state` before them. -/
def printableFrom (state : Sequence) : List Char → List Char
  | [] => []
  | c :: cs =>
    if state.shows c then c :: printableFrom (state.next c) cs
    else printableFrom (state.next c) cs

/-- The text without what a terminal would hide. -/
def printable (text : String) : String := String.ofList (printableFrom .outside text.toList)

/-- Nothing that is left can be hidden. -/
theorem isShown_of_mem_printableFrom {state : Sequence} {cs : List Char} {c : Char}
    (h : c ∈ printableFrom state cs) : isShown c = true := by
  induction cs generalizing state with
  | nil => simp [printableFrom] at h
  | cons d cs ih =>
    unfold printableFrom at h
    split at h
    · next hd =>
      rcases List.mem_cons.mp h with rfl | h
      · exact Sequence.isShown_of_shows hd
      · exact ih h
    · exact ih h

/-- A text with nothing to hide is left as it is. -/
theorem printableFrom_eq_self {cs : List Char} (h : ∀ c ∈ cs, isShown c = true) :
    printableFrom .outside cs = cs := by
  induction cs with
  | nil => rfl
  | cons c cs ih =>
    have hc : isShown c = true := h c (by simp)
    have hs : Sequence.outside.shows c = true := hc
    simp [printableFrom, hs, Sequence.next_outside hc, ih fun d hd => h d (by simp [hd])]

end SheetLint.Text
