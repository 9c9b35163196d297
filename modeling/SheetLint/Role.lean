import SheetLint.Text.Cut
import SheetLint.Text.Lowercase

/-!
# The role of a stylesheet and the namespace it owns

A file's path below the scan root says what the file is for. Two directories hold files of a role,
and four roles belong to a single file at the root each. All other files have no role and are left
alone. The file's name, without its extension and the underscores of a partial, is the namespace
that its declarations carry.
-/

namespace SheetLint

open Text

inductive Role where
  | component
  | config
  | layout
  | mixin
  | module
  | style
deriving DecidableEq, Repr

namespace Role

def name : Role → String
  | component => "component"
  | config => "config"
  | layout => "layout"
  | mixin => "mixin"
  | module => "module"
  | style => "style"

/-- The role of the file at the root whose name before the last dot is `stem`. -/
def ofStem? (stem : List Char) : Option Role :=
  if stem = "config".toList then some .config
  else if stem = "layout".toList then some .layout
  else if stem = "mixin".toList then some .mixin
  else if stem = "style".toList then some .style
  else none

/-- The role of the file at `path`, a path relative to the root. The two directories come before
the single files, and a single file counts only with the extension in use. -/
def ofPath? (path ext : String) : Option Role :=
  if (afterStart? "component/".toList path.toList).isSome then some .component
  else if (afterStart? "module/".toList path.toList).isSome then some .module
  else
    match splitAtLast? '.' path.toList with
    | some (stem, back) => if back = ext.toList then ofStem? stem else none
    | none => none

theorem ofStem?_eq_some_iff {stem : List Char} {role : Role} :
    ofStem? stem = some role ↔
      stem = role.name.toList ∧ role ≠ .component ∧ role ≠ .module := by
  constructor
  · intro h
    unfold ofStem? at h
    split at h
    · next e => cases h; exact ⟨e, by decide, by decide⟩
    · split at h
      · next e => cases h; exact ⟨e, by decide, by decide⟩
      · split at h
        · next e => cases h; exact ⟨e, by decide, by decide⟩
        · split at h
          · next e => cases h; exact ⟨e, by decide, by decide⟩
          · exact absurd h (by simp)
  · rintro ⟨rfl, hc, hm⟩
    cases role with
    | component => exact absurd rfl hc
    | module => exact absurd rfl hm
    | config => rfl
    | layout => rfl
    | mixin => rfl
    | style => rfl

end Role

/-- The namespace of the file at `path`: its name without the extension in use and without leading
underscores, in lower case. -/
def baseName (path ext : String) : String :=
  let fileName := afterLast '/' path.toList
  let stem := (beforeEnd? ('.' :: ext.toList) fileName).getD fileName
  String.ofList (lowercase (stem.dropWhile (· == '_')))

end SheetLint
