import SheetLint.Text.Blank
import SheetLint.Text.Cut

/-!
# The lines of a stylesheet and what they declare

A source is cut into physical lines, each line is trimmed, and the token at its start decides what
kind of declaration it is. Nothing is parsed beyond that token: a line with no such token declares
nothing here, and no line looks at its neighbours.
-/

namespace SheetLint

open Text

/-- The first line and the others. A line ends at a line feed, and one carriage return right before
it belongs to the line's end. -/
def breakLines : List Char → List Char × List (List Char)
  | [] => ([], [])
  | '\r' :: '\n' :: cs => ([], (breakLines cs).1 :: (breakLines cs).2)
  | '\n' :: cs => ([], (breakLines cs).1 :: (breakLines cs).2)
  | c :: cs => (c :: (breakLines cs).1, (breakLines cs).2)

/-- All lines, numbered from 1. A source that ends in a line end has an empty last line. -/
def splitLines (source : String) : List (Nat × String) :=
  let lines := (breakLines source.toList).1 :: (breakLines source.toList).2
  (lines.zipIdx 1).map fun (line, number) => (number, String.ofList line)

inductive LineKind where
  | comment
  | todo
  | variableDecl
  | placeholder
  | functionDecl
  | mixinDecl
  | classSelector
deriving DecidableEq, Repr

namespace LineKind

def opensComment (raw : List Char) : Bool :=
  (afterStart? ['/', '/'] (trimStart raw)).isSome

/-- A note for later: blanks and then the mark follow the slashes. -/
def opensTodo (raw : List Char) : Bool :=
  match afterStart? ['/', '/'] (trimStart raw) with
  | some (c :: rest) => isBlank c && (afterStart? "TODO:".toList (trimStart rest)).isSome
  | _ => false

/-- A dollar sign, at least one character that is no blank, and a colon, with no blank between. -/
def opensVariable : List Char → Bool
  | '$' :: c :: rest => !isBlank c && (rest.takeWhile fun d => !isBlank d).contains ':'
  | _ => false

def opensPlaceholder (text : List Char) : Bool := (afterStart? ['%'] text).isSome

def opensFunction (text : List Char) : Bool := (afterStart? "@function ".toList text).isSome

def opensMixin (text : List Char) : Bool := (afterStart? "@mixin ".toList text).isSome

def opensClass (raw : List Char) : Bool := (afterStart? ['.'] (trimStart raw)).isSome

/-- The kind of a line, from its text without surrounding blanks and the line with its
indentation. The first test that holds decides. -/
def ofText? (text raw : List Char) : Option LineKind :=
  if opensComment raw then
    if opensTodo raw then some .todo else some .comment
  else if opensVariable text then some .variableDecl
  else if opensPlaceholder text then some .placeholder
  else if opensFunction text then some .functionDecl
  else if opensMixin text then some .mixinDecl
  else if opensClass raw then some .classSelector
  else none

end LineKind

/-- A line as the rules see it: `raw` keeps its indentation, `text` has no blank at either end. -/
structure Line where
  number : Nat
  text : String
  raw : String
  kind : Option LineKind
deriving DecidableEq, Repr

def Line.ofString (number : Nat) (line : String) : Line :=
  let raw := trimEnd line.toList
  let text := trimStart raw
  { number, text := String.ofList text, raw := String.ofList raw, kind := LineKind.ofText? text raw }

/-- The records of all lines of a source, in order. -/
def scan (source : String) : List Line :=
  (splitLines source).map fun (number, line) => Line.ofString number line

end SheetLint
