import SheetLint.Text.Cut
import SheetLint.Text.Utf8

/-!
# Names and paths

A path is a sequence of bytes and a name is what stands between two slashes of it. Neither has to be
a text: a text is only what is shown of them. Two slashes in a row, or one at the end, leave an
empty name behind, which means the directory it is looked up in, as a single dot does.
-/

namespace SheetLint

open Text

abbrev Name := Bytes

abbrev Path := Bytes

namespace Name

def dot : UInt8 := 0x2E

def here : Name := [dot]

def above : Name := [dot, dot]

/-- The longest name, in bytes, that a directory can hold or be asked for. -/
def maxLength : Nat := 255

/-- A name that an entry of a directory can have. -/
structure Proper (name : Name) : Prop where
  nonempty : name ≠ []
  not_here : name ≠ here
  not_above : name ≠ above
  no_slash : 0x2F ∉ name
  no_nul : 0 ∉ name
  short : name.length ≤ maxLength

instance (name : Name) : Decidable name.Proper :=
  decidable_of_iff
    (name ≠ [] ∧ name ≠ here ∧ name ≠ above ∧ 0x2F ∉ name ∧ 0 ∉ name ∧ name.length ≤ maxLength)
    ⟨fun ⟨a, b, c, d, e, f⟩ => ⟨a, b, c, d, e, f⟩, fun ⟨a, b, c, d, e, f⟩ => ⟨a, b, c, d, e, f⟩⟩

/-- The name of a hidden directory: a text that starts with a dot. -/
def isHidden (name : Name) : Bool := isWellFormed name && name.head? == some dot

/-- What follows the last dot, unless that dot is the first character. -/
def ext? (name : Name) : Option Bytes :=
  if name = above then none
  else
    match splitAtLast? dot name with
    | some (_ :: _, ext) => some ext
    | _ => none

theorem ext?_eq_some_iff {name : Name} {ext : Bytes} (h : name ≠ above) :
    name.ext? = some ext ↔ ∃ stem, stem ≠ [] ∧ name = stem ++ dot :: ext ∧ dot ∉ ext := by
  simp only [ext?, h, ite_false]
  constructor
  · intro he
    split at he
    · next first stem ext' hs =>
      obtain ⟨hn, hd⟩ := splitAtLast?_eq_some_iff.mp hs
      cases he
      exact ⟨first :: stem, by simp, hn, hd⟩
    · exact absurd he (by simp)
  · rintro ⟨stem, hstem, hn, hd⟩
    rw [splitAtLast?_eq_some_iff.mpr ⟨hn, hd⟩]
    cases stem with
    | nil => exact absurd rfl hstem
    | cons first stem => rfl

end Name

namespace Path

def slash : UInt8 := 0x2F

/-- The longest path, in bytes, that can be looked up. -/
def maxLength : Nat := 4095

def isAbsolute (path : Path) : Bool := path.head? == some slash

/-- The names of the path, outermost first. -/
def names (path : Path) : List Name := split slash path

/-- The path of `next` seen from `path`. No second slash is put behind a last one. -/
def join (path next : Path) : Path :=
  if isAbsolute next then next
  else if path = [] ∨ path.getLast? = some slash then path ++ next
  else path ++ slash :: next

/-- The path without the slashes at its end. -/
def withoutEnd (path : Path) : Path := (path.reverse.dropWhile (· == slash)).reverse

/-- The part before the last slash and the name behind it. -/
def parentAndName (path : Path) : Path × Name :=
  (splitAtLast? slash path).getD ([], path)

/-- The path of the entry with the given names, innermost first, below `root`. -/
def descend (root : Path) (trail : List Name) : Path :=
  trail.foldr (fun name path => join path name) root

/-- The names below a root, innermost first, as a path that can be shown. -/
def relative (trail : List Name) : String := "/".intercalate (trail.reverse.map shown)

end Path

end SheetLint
