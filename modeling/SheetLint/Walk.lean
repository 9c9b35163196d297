import SheetLint.Linter
import SheetLint.Volume

/-!
# Walking a volume

A walk starts at a directory and lists every file below it. It follows links: a link to a file is
listed under the link's own name, and a link to a directory is entered like a directory. Two things
end a walk with an error, wherever the walk meets them: a link that leads nowhere, and a link to a
directory that is being walked, from the root down to the directory that holds the link. Both are
noticed before anything is left out for being hidden. A directory's own subdirectories are entered
without such a test, so a directory can be walked again inside itself, but only below a link that
led above it. A walk also ends with an error at a directory that it would enter under a path that is
too long to be looked up.

Every walk ends. Entering a link adds a directory that was not being walked, and between two links
the walk only goes down in the volume.
-/

namespace SheetLint

open Text

/-- A directory that is being walked: its place, and the names from the root of the walk to it,
innermost first. -/
structure Visit where
  place : Place
  trail : List Name
deriving DecidableEq, Repr

/-- Where a walk runs: the volume, the current directory, and the path of the walk's root. -/
structure Scope where
  volume : Volume
  base : Place
  root : Path

namespace Scope

/-- The path under which a walk knows the entry that its trail leads to. -/
def pathOf (scope : Scope) (trail : List Name) : Path := Path.descend scope.root trail

/-- The place that the entry leads to, found again from the current directory. -/
def target (scope : Scope) (trail : List Name) : Except PathFailure Place :=
  scope.volume.find scope.base (scope.pathOf trail)

/-- What a walk does with an entry: leave it out, list it, or enter a directory. -/
inductive Met where
  | nothing
  | file
  | directory (place : Place)
deriving DecidableEq, Repr

/-- What a walk does with the entry `name` of the directory `here` when it is or leads to the
directory at `place`. It is entered under its path, unless its name hides it. -/
def enter (scope : Scope) (here : Visit) (name : Name) (place : Place) : Except WalkError Met :=
  if name.isHidden then .ok .nothing
  else if Path.maxLength < (scope.pathOf (name :: here.trail)).length then
    .error (.unreachable (scope.pathOf (name :: here.trail)) (.os .nameTooLong))
  else .ok (.directory place)

/-- What a walk does with the entry `name` of the directory `here`, when `above` are the other
directories being walked, innermost first. -/
def meet (scope : Scope) (here : Visit) (above : List Visit) (name : Name) : Except WalkError Met :=
  match scope.volume.at? (name :: here.place) with
  | none => .ok .nothing
  | some (.file _) => .ok .file
  | some .directory => scope.enter here name (name :: here.place)
  | some (.link _) =>
    match scope.target (name :: here.trail) with
    | .error cause => .error (.unreachable (scope.pathOf (name :: here.trail)) cause)
    | .ok place =>
      if scope.volume.isDirectory place then
        match (here :: above).find? fun visit => visit.place = place with
        | some visit =>
          .error (.loop (scope.pathOf (name :: here.trail)) (scope.pathOf visit.trail))
        | none => scope.enter here name place
      else .ok .file

theorem eq_of_enter {scope : Scope} {here : Visit} {name : Name} {place entered : Place}
    (h : scope.enter here name place = .ok (.directory entered)) : entered = place := by
  unfold enter at h
  split at h
  · simp at h
  · split at h
    · simp at h
    · cases h
      rfl

/-- A directory that is entered lies right below the one it is entered from, or it was not being
walked before. -/
theorem directory_of_meet {scope : Scope} {here : Visit} {above : List Visit} {name : Name}
    {place : Place} (h : scope.meet here above name = .ok (.directory place)) :
    scope.volume.at? place = some .directory ∧
      (place = name :: here.place ∨ ∀ visit ∈ here :: above, visit.place ≠ place) := by
  unfold meet at h
  split at h
  · simp at h
  · simp at h
  · next hat =>
    cases eq_of_enter h
    exact ⟨hat, Or.inl rfl⟩
  · split at h
    · simp at h
    · split at h
      · next hdir =>
        split at h
        · simp at h
        · next hnone =>
          cases eq_of_enter h
          refine ⟨Volume.isDirectory_iff.mp hdir, Or.inr fun visit hm => ?_⟩
          simpa using List.find?_eq_none.mp hnone visit hm
      · simp at h

/-- The directories of the volume that are not being walked. -/
def unvisited (scope : Scope) (chain : List Visit) : List Place :=
  scope.volume.directories.filter fun place => chain.all fun visit => visit.place != place

theorem unvisited_cons (scope : Scope) (visit : Visit) (chain : List Visit) :
    scope.unvisited (visit :: chain) =
      (scope.unvisited chain).filter fun place => visit.place != place := by
  simp [unvisited, List.filter_filter]

theorem length_unvisited_cons_le (scope : Scope) (visit : Visit) (chain : List Visit) :
    (scope.unvisited (visit :: chain)).length ≤ (scope.unvisited chain).length := by
  rw [unvisited_cons]
  exact List.length_filter_le _ _

theorem length_unvisited_cons_lt {scope : Scope} {visit : Visit} {chain : List Visit}
    (hdir : scope.volume.at? visit.place = some .directory)
    (hnew : ∀ other ∈ chain, other.place ≠ visit.place) :
    (scope.unvisited (visit :: chain)).length < (scope.unvisited chain).length := by
  rw [unvisited_cons]
  refine List.length_filter_lt_length_iff_exists.mpr ⟨visit.place, ?_, by simp⟩
  refine List.mem_filter.mpr ⟨Volume.mem_directories_iff.mpr hdir, ?_⟩
  exact List.all_eq_true.mpr fun other hm => by simpa using hnew other hm

/-- The trails of all files met under the names of the directory `here`, or the first error. -/
def walk (scope : Scope) (here : Visit) (above : List Visit) :
    List Name → Except WalkError (List (List Name))
  | [] => .ok []
  | name :: others =>
    match _met : scope.meet here above name with
    | .error error => .error error
    | .ok .nothing => scope.walk here above others
    | .ok .file => (scope.walk here above others).map ((name :: here.trail) :: ·)
    | .ok (.directory place) =>
      match scope.walk ⟨place, name :: here.trail⟩ (here :: above) (scope.volume.names place) with
      | .error error => .error error
      | .ok inside => (scope.walk here above others).map (inside ++ ·)
termination_by names =>
  ((scope.unvisited (here :: above)).length, scope.volume.height - here.place.length, names.length)
decreasing_by
  · exact .right _ (.right _ (by simp))
  · exact .right _ (.right _ (by simp))
  · obtain ⟨hdir, hstep⟩ := directory_of_meet _met
    rcases hstep with rfl | hnew
    · have hle := length_unvisited_cons_le scope ⟨name :: here.place, name :: here.trail⟩
        (here :: above)
      rcases Nat.lt_or_eq_of_le hle with hlt | heq
      · exact .left _ _ hlt
      · rw [heq]
        refine .right _ (.left _ _ ?_)
        have hh := Volume.length_le_height hdir
        simp only [List.length_cons] at hh ⊢
        omega
    · exact .left _ _ (length_unvisited_cons_lt hdir hnew)
  · exact .right _ (.right _ (by simp))

/-- The trails of all files below the walk's root. A root that is a file is all there is. -/
def files (scope : Scope) : Except WalkError (List (List Name)) :=
  match scope.target [] with
  | .error cause => .error (.unreachable scope.root cause)
  | .ok place =>
    if scope.volume.isDirectory place then
      scope.walk ⟨place, []⟩ [] (scope.volume.names place)
    else .ok [[]]

/-- The file that a trail leads to has the extension. -/
def hasExt (scope : Scope) (ext : String) (trail : List Name) : Bool :=
  Name.ext? (trail.headD scope.root.parentAndName.2) == some (bytesOf ext)

/-- The paths of all files with the extension below the walk's root, sorted. -/
def stylesheets (scope : Scope) (ext : String) : Except WalkError (List String) :=
  scope.files.map fun trails =>
    ((trails.filter (scope.hasExt ext)).map Path.relative).mergeSort

/-- The text of the file at a path relative to the walk's root. -/
def load (scope : Scope) (path : String) : Except PathFailure String :=
  (scope.volume.read scope.base (scope.root.join (bytesOf path))).map shown

def source (scope : Scope) (ext : String) : Source where
  paths := (scope.stylesheets ext).mapError .discovery
  load := scope.load

/-- A run needs a directory to start from. -/
def checkRoot (scope : Scope) : Except RunError Unit :=
  match scope.target [] with
  | .error _ => .error (.configuration scope.root .missing)
  | .ok place =>
    if scope.volume.isDirectory place then .ok ()
    else .error (.configuration scope.root .notADirectory)

end Scope

/-- Lint the directory tree that the configuration names, in a volume with the current directory
`base`. -/
def Config.run (config : Config) (volume : Volume) (base : Place) : Except RunError Run :=
  let scope : Scope := ⟨volume, base, config.root⟩
  match scope.checkRoot with
  | .error error => .error error
  | .ok () => (scope.source config.ext).run config

end SheetLint
