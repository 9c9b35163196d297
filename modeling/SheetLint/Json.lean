/-!
# JSON documents and their printed form

A document is printed over several lines. Each item of an array and each field of an object stands
on a line of its own, two spaces further in than what holds it, and an empty array or object stays
on one line. In texts only the characters that cannot stand there are escaped: the two quoting
characters and the controls below U+0020, five of which have short names.
-/

namespace SheetLint

inductive JsonValue where
  | number (value : Nat)
  | text (value : List Char)
  | array (items : List JsonValue)
  | object (fields : List (List Char × JsonValue))

namespace JsonValue

def ofString (s : String) : JsonValue := .text s.toList

/-- The two hexadecimal digits of a number below 256. -/
def hexPair (n : Nat) : List Char := [Nat.digitChar (n / 16), Nat.digitChar (n % 16)]

def escapeChar (c : Char) : List Char :=
  if c = '"' then ['\\', '"']
  else if c = '\\' then ['\\', '\\']
  else if c = '\n' then ['\\', 'n']
  else if c = '\r' then ['\\', 'r']
  else if c = '\t' then ['\\', 't']
  else if c.toNat = 0x08 then ['\\', 'b']
  else if c.toNat = 0x0C then ['\\', 'f']
  else if c.toNat < 0x20 then ['\\', 'u', '0', '0'] ++ hexPair c.toNat
  else [c]

def quote (cs : List Char) : List Char := '"' :: cs.flatMap escapeChar ++ ['"']

def indentation (depth : Nat) : List Char := List.replicate (2 * depth) ' '

/-- Rows between two brackets, separated by commas and each on a line of its own one step further
in than the brackets. -/
def block (depth : Nat) (opening closing : Char) : List (List Char) → List Char
  | [] => [opening, closing]
  | row :: rows =>
    let lines := (row :: rows).map (indentation (depth + 1) ++ ·)
    opening :: '\n' :: List.intercalate [',', '\n'] lines ++
      '\n' :: indentation depth ++ [closing]

mutual

/-- The printed form of a value that stands at a depth. It starts in the middle of a line. -/
def print (depth : Nat) : JsonValue → List Char
  | .number value => Nat.toDigits 10 value
  | .text value => quote value
  | .array items => block depth '[' ']' (printItems (depth + 1) items)
  | .object fields => block depth '\x7b' '\x7d' (printFields (depth + 1) fields)

def printItems (depth : Nat) : List JsonValue → List (List Char)
  | [] => []
  | item :: items => print depth item :: printItems depth items

def printFields (depth : Nat) : List (List Char × JsonValue) → List (List Char)
  | [] => []
  | (key, value) :: fields =>
    (quote key ++ ':' :: ' ' :: print depth value) :: printFields depth fields

end

/-- The text of a whole document. -/
def pretty (value : JsonValue) : String := String.ofList (value.print 0)

end JsonValue

end SheetLint
