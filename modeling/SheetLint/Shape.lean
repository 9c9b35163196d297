import SheetLint.Line
import SheetLint.Text.Lowercase
import SheetLint.Text.Utf8

/-!
# The shapes of well-formed names

A declaration is well-formed when its line has one of the shapes below. Every shape is read from
left to right without going back: each run of letters is ended by a character that the run cannot
contain, so the longest run is the only one that can work. Shapes of components and modules carry
the namespace of their file, with a capital first letter and in any case otherwise.
-/

namespace SheetLint

open Text

/-- One character of `first` and then the longest run, not empty, of characters of `more`, together
with what follows them. -/
def word? (first more : Char → Bool) : List Char → Option (List Char × List Char)
  | [] => none
  | c :: cs =>
    if first c && !(cs.takeWhile more).isEmpty then
      some (c :: cs.takeWhile more, cs.dropWhile more)
    else none

/-- A namespace with a capital first letter, an underscore and a name of its own, together with
what follows them. Only the namespace and the rest are returned. -/
def namespaced? (cs : List Char) : Option (List Char × List Char) :=
  match word? Char.isUpper Char.isAlpha cs with
  | some (space, '_' :: cs) =>
    match word? Char.isLower Char.isAlphanum cs with
    | some (_, rest) => some (space, rest)
    | none => none
  | _ => none

/-- The characters that end the name of a placeholder. -/
def endsPlaceholder (c : Char) : Bool := ['{', ',', ':', '.', ' '].contains c

/-- The characters that may follow the namespace in the name of a class. -/
def endsClassSpace (c : Char) : Bool := ['{', ',', ':', '.', '-', ' '].contains c

/-- The rest begins with a character of `p`. -/
def begins (p : Char → Bool) : List Char → Bool
  | [] => false
  | c :: _ => p c

/-- What follows the namespace at the start of `subject`. The part that is compared has as many
bytes as the namespace, and it is compared in lower case. -/
def afterNamespace? (space subject : List Char) : Option (List Char) :=
  match cutAtByte? (byteLength space) subject with
  | some (head, rest) => if lowercase head = space then some rest else none
  | none => none

/-- What a function or mixin line declares: the longest run, not empty, of characters other than an
opening parenthesis and blanks, right after the keyword and a single space. -/
def declaredName? (text : List Char) : Option (List Char) :=
  match afterStart? "@function ".toList text <|> afterStart? "@mixin ".toList text with
  | some rest =>
    match rest.takeWhile fun c => c != '(' && !isBlank c with
    | [] => none
    | c :: cs => some (c :: cs)
  | none => none

/-- The two roles whose names carry a namespace. -/
inductive Owner where
  | component
  | module
deriving DecidableEq, Repr

def Owner.letter : Owner → Char
  | component => 'c'
  | module => 'm'

inductive Shape where
  | sectionComment
  | configVariable
  | layoutVariable
  | ownedVariable (owner : Owner)
  | layoutPlaceholder
  | componentPlaceholder
  | modulePlaceholder
  | anyDeclaration
  | layoutDeclaration
  | ownedDeclaration (owner : Owner)
  | moduleClass
deriving DecidableEq, Repr

namespace Shape

/-- Slashes and dashes around a text that neither starts nor ends with a blank, up to the end of
the line. The blanks inside the dashes belong to them, so the two sides share none. -/
def isSectionComment (raw : List Char) : Bool :=
  match afterStart? "// -- ".toList (trimStart raw) with
  | some rest =>
    match beforeEnd? " --".toList rest with
    | some body =>
      begins (fun c => !isBlank c) body && begins (fun c => !isBlank c) body.reverse &&
        !body.contains '\n'
    | none => false
  | none => false

def isConfigVariable : List Char → Bool
  | '$' :: cs =>
    match word? Char.isLower (fun c => c.isAlphanum || c == '_') cs with
    | some (_, ':' :: _) => true
    | _ => false
  | _ => false

def isLayoutVariable : List Char → Bool
  | '$' :: 'l' :: cs =>
    match word? Char.isUpper Char.isAlphanum cs with
    | some (_, ':' :: _) => true
    | _ => false
  | _ => false

def isOwnedVariable (owner : Owner) (space : List Char) : List Char → Bool
  | '$' :: letter :: cs =>
    letter == owner.letter &&
      match namespaced? cs with
      | some (found, ':' :: _) => lowercase found = space
      | _ => false
  | _ => false

def isLayoutPlaceholder : List Char → Bool
  | '%' :: 'l' :: cs =>
    match word? Char.isUpper Char.isAlphanum cs with
    | some (_, rest) => begins endsPlaceholder rest
    | none => false
  | _ => false

/-- A placeholder with a name of its own behind the namespace. -/
def isNamespacedPlaceholder (owner : Owner) (space : List Char) : List Char → Bool
  | '%' :: letter :: cs =>
    letter == owner.letter &&
      match namespaced? cs with
      | some (found, rest) => begins endsPlaceholder rest && lowercase found = space
      | none => false
  | _ => false

/-- The namespace stands alone, so only its first letter is left to check. -/
def isBareNamespace (space cs : List Char) : Bool :=
  match afterNamespace? space cs with
  | some rest => begins endsPlaceholder rest
  | none => false

def isComponentPlaceholder (space : List Char) : List Char → Bool
  | '%' :: 'c' :: cs =>
    if isBareNamespace space cs then begins Char.isUpper cs
    else isNamespacedPlaceholder .component space ('%' :: 'c' :: cs)
  | _ => false

def isAnyDeclaration (text : List Char) : Bool := (declaredName? text).isSome

def isLayoutDeclaration (text : List Char) : Bool :=
  match declaredName? text with
  | some ('l' :: cs) =>
    match word? Char.isUpper Char.isAlphanum cs with
    | some (_, []) => true
    | _ => false
  | _ => false

def isOwnedDeclaration (owner : Owner) (space text : List Char) : Bool :=
  match declaredName? text with
  | some (letter :: cs) =>
    letter == owner.letter &&
      match namespaced? cs with
      | some (found, []) => lowercase found = space
      | _ => false
  | _ => false

/-- A character of a class name that may stand at either end of it. -/
def isClassEdge (c : Char) : Bool := c.isLower || c.isDigit

/-- A dot, at least two characters of a class name with no dash at either end, and a terminator. -/
def hasClassName (raw : List Char) : Bool :=
  match trimStart raw with
  | '.' :: cs =>
    let run := cs.takeWhile fun c => isClassEdge c || c == '-'
    begins isClassEdge run && begins isClassEdge run.reverse && 2 ≤ run.length &&
      begins endsPlaceholder (cs.drop run.length)
  | _ => false

/-- The name that follows the dot starts with the namespace. -/
def hasClassSpace (space : List Char) : List Char → Bool
  | '.' :: cs =>
    match afterNamespace? space cs with
    | some rest => begins endsClassSpace rest
    | none => false
  | _ => false

def isModuleClass (space text raw : List Char) : Bool := hasClassName raw && hasClassSpace space text

/-- The line has the shape, with `space` as the namespace of its file. -/
def accepts (shape : Shape) (line : Line) (space : String) : Bool :=
  let text := line.text.toList
  let raw := line.raw.toList
  let space := space.toList
  match shape with
  | sectionComment => isSectionComment raw
  | configVariable => isConfigVariable text
  | layoutVariable => isLayoutVariable text
  | ownedVariable owner => isOwnedVariable owner space text
  | layoutPlaceholder => isLayoutPlaceholder text
  | componentPlaceholder => isComponentPlaceholder space text
  | modulePlaceholder => isNamespacedPlaceholder .module space text
  | anyDeclaration => isAnyDeclaration text
  | layoutDeclaration => isLayoutDeclaration text
  | ownedDeclaration owner => isOwnedDeclaration owner space text
  | moduleClass => isModuleClass space text raw

end Shape

end SheetLint
