import SheetLint.Failure
import SheetLint.Path

/-!
# Volumes of files

A volume is a finite tree of directories, files and symbolic links. It is kept as a table from
places to entries, and a place is the list of names that leads to it through real directories alone,
so two paths lead to the same directory exactly when they lead to the same place. A path is looked
up name by name and its links are followed as they are met, up to a limit for one look-up. A path that
is too long is not looked up at all. Nobody is denied access.
-/

namespace SheetLint

open Text

/-- A place in a volume: the names from it up to the root, innermost first. -/
abbrev Place := List Name

inductive Entry where
  | directory
  | file (content : Bytes)
  | link (target : Path)
deriving DecidableEq, Repr

/-- Every entry but the root has a proper name, a place of its own and a directory around it. -/
structure Volume where
  entries : List (Place × Entry)
  distinct : (entries.map Prod.fst).Nodup
  placed : ∀ place entry, (place, entry) ∈ entries →
    ∃ name parent, place = name :: parent ∧ name.Proper ∧
      (parent = [] ∨ (parent, Entry.directory) ∈ entries)

namespace Volume

def empty : Volume := ⟨[], .nil, fun _ _ h => absurd h (by simp)⟩

/-- A table can be checked entry by entry for what a volume asks of its places. -/
theorem placed_of_forall {entries : List (Place × Entry)}
    (h : ∀ e ∈ entries, e.1 ≠ [] ∧ (e.1.headD []).Proper ∧
      (e.1.tail = [] ∨ (e.1.tail, Entry.directory) ∈ entries)) (place : Place) (entry : Entry)
    (hm : (place, entry) ∈ entries) :
    ∃ name parent, place = name :: parent ∧ name.Proper ∧
      (parent = [] ∨ (parent, Entry.directory) ∈ entries) := by
  obtain ⟨hne, hproper, hparent⟩ := h _ hm
  cases place with
  | nil => exact absurd rfl hne
  | cons name parent => exact ⟨name, parent, rfl, hproper, hparent⟩

/-- The entry at a place. The root is a directory. -/
def at? (v : Volume) : Place → Option Entry
  | [] => some .directory
  | place@(_ :: _) => v.entries.lookup place

def isDirectory (v : Volume) (place : Place) : Bool :=
  match v.at? place with
  | some .directory => true
  | _ => false

/-- The names of the entries in the directory at a place. -/
def names (v : Volume) (place : Place) : List Name :=
  v.entries.filterMap fun
    | (name :: parent, _) => if parent = place then some name else none
    | ([], _) => none

/-- The places of all directories. -/
def directories (v : Volume) : List Place :=
  [] :: v.entries.filterMap fun
    | (place, .directory) => some place
    | _ => none

/-- No place is deeper than this. -/
def height (v : Volume) : Nat := (v.entries.map fun e => e.1.length).foldr max 0

theorem isDirectory_iff {v : Volume} {place : Place} :
    v.isDirectory place = true ↔ v.at? place = some .directory := by
  unfold isDirectory
  split <;> simp_all

theorem lookup_eq_some_iff {entries : List (Place × Entry)}
    (distinct : (entries.map Prod.fst).Nodup) {place : Place} {entry : Entry} :
    entries.lookup place = some entry ↔ (place, entry) ∈ entries := by
  induction entries with
  | nil => simp
  | cons first rest ih =>
    obtain ⟨key, value⟩ := first
    obtain ⟨hkey, hrest⟩ := List.nodup_cons.mp distinct
    by_cases h : place = key
    · subst h
      have hn : (place, entry) ∉ rest := fun hm => hkey (List.mem_map.mpr ⟨_, hm, rfl⟩)
      simp [hn, eq_comm]
    · have hb : (place == key) = false := by simp [h]
      simp [List.lookup_cons, hb, ih hrest, h]

theorem at?_cons_eq_some_iff {v : Volume} {name : Name} {parent : Place} {entry : Entry} :
    v.at? (name :: parent) = some entry ↔ (name :: parent, entry) ∈ v.entries :=
  lookup_eq_some_iff v.distinct

/-- Around every entry there is a directory. -/
theorem at?_parent {v : Volume} {name : Name} {parent : Place} {entry : Entry}
    (h : v.at? (name :: parent) = some entry) : v.at? parent = some .directory := by
  obtain ⟨name', parent', he, _, hp⟩ := v.placed _ _ (at?_cons_eq_some_iff.mp h)
  cases he
  cases parent with
  | nil => rfl
  | cons outer rest =>
    rcases hp with hp | hp
    · exact absurd hp (by simp)
    · exact at?_cons_eq_some_iff.mpr hp

theorem proper_of_at? {v : Volume} {name : Name} {parent : Place} {entry : Entry}
    (h : v.at? (name :: parent) = some entry) : name.Proper := by
  obtain ⟨name', parent', he, hn, _⟩ := v.placed _ _ (at?_cons_eq_some_iff.mp h)
  cases he
  exact hn

theorem mem_names_iff {v : Volume} {name : Name} {place : Place} :
    name ∈ v.names place ↔ ∃ entry, v.at? (name :: place) = some entry := by
  simp only [names, List.mem_filterMap, at?_cons_eq_some_iff]
  constructor
  · rintro ⟨⟨key, entry⟩, hm, hk⟩
    cases key with
    | nil => simp at hk
    | cons first parent =>
      by_cases hp : parent = place
      · simp only [hp, ite_true, Option.some.injEq] at hk
        exact ⟨entry, hk ▸ hp ▸ hm⟩
      · simp [hp] at hk
  · rintro ⟨entry, hm⟩
    exact ⟨(name :: place, entry), hm, by simp⟩

theorem mem_directories_iff {v : Volume} {place : Place} :
    place ∈ v.directories ↔ v.at? place = some .directory := by
  have hsome : ∀ name parent, (name :: parent ∈ v.directories ↔
      (name :: parent, Entry.directory) ∈ v.entries) := by
    intro name parent
    simp only [directories, List.mem_cons, reduceCtorEq, false_or, List.mem_filterMap]
    constructor
    · rintro ⟨⟨key, entry⟩, hm, hk⟩
      cases entry <;> simp at hk
      exact hk ▸ hm
    · intro hm
      exact ⟨_, hm, rfl⟩
  cases place with
  | nil => simp [directories, at?]
  | cons name parent => rw [hsome, at?_cons_eq_some_iff]

theorem length_le_height {v : Volume} {place : Place} {entry : Entry}
    (h : v.at? place = some entry) : place.length ≤ v.height := by
  cases place with
  | nil => simp
  | cons name parent =>
    have hm := at?_cons_eq_some_iff.mp h
    unfold height
    generalize v.entries = entries at hm
    induction entries with
    | nil => simp at hm
    | cons first rest ih =>
      simp only [List.map_cons, List.foldr_cons]
      rcases List.mem_cons.mp hm with hm | hm
      · subst hm
        exact Nat.le_max_left _ _
      · exact Nat.le_trans (ih hm) (Nat.le_max_right _ _)

/-- How many links one look-up follows. -/
def maxLinks : Nat := 40

/-- Where a path starts when `base` is the current directory. -/
def origin (base : Place) (path : Path) : Place := if path.isAbsolute then [] else base

/-- Go on from a place by names, outermost first. Where a name is a link, `follow` takes over with
the names of the link's target before those that are left. -/
def advance (v : Volume) (follow : Place → List Name → Except OsError Place) (place : Place) :
    List Name → Except OsError Place
  | [] => .ok place
  | name :: rest =>
    if v.isDirectory place = false then .error .notADirectory
    else if name = [] ∨ name = Name.here then v.advance follow place rest
    else if name = Name.above then v.advance follow place.tail rest
    else if Name.maxLength < name.length then .error .nameTooLong
    else
      match v.at? (name :: place) with
      | none => .error .notFound
      | some (.link target) => follow (origin place target) (target.names ++ rest)
      | some _ => v.advance follow (name :: place) rest

/-- The place that names lead to from a place, following at most the given number of links. -/
def resolve (v : Volume) : Nat → Place → List Name → Except OsError Place
  | 0 => v.advance fun _ _ => .error .tooManyLinks
  | links + 1 => v.advance (v.resolve links)

/-- The place that a path leads to when `base` is the current directory. -/
def find (v : Volume) (base : Place) (path : Path) : Except PathFailure Place :=
  if path.contains 0 then .error .nulInPath
  else if path = [] then .error (.os .notFound)
  else if Path.maxLength < path.length then .error (.os .nameTooLong)
  else (v.resolve maxLinks (origin base path) path.names).mapError .os

/-- The content of the file that a path leads to. -/
def read (v : Volume) (base : Place) (path : Path) : Except PathFailure Bytes :=
  match v.find base path with
  | .error failure => .error failure
  | .ok place =>
    match v.at? place with
    | some (.file content) => .ok content
    | some .directory => .error (.os .isADirectory)
    | _ => .error (.os .notFound)

/-- Put an entry into a directory that has none of its name. -/
def insert (v : Volume) (name : Name) (parent : Place) (entry : Entry) (proper : name.Proper)
    (inside : v.at? parent = some .directory) (fresh : v.at? (name :: parent) = none) : Volume where
  entries := (name :: parent, entry) :: v.entries
  distinct := by
    refine List.nodup_cons.mpr ⟨fun hm => ?_, v.distinct⟩
    obtain ⟨⟨key, old⟩, hm, rfl⟩ := List.mem_map.mp hm
    rw [at?_cons_eq_some_iff.mpr hm] at fresh
    exact absurd fresh (by simp)
  placed := by
    intro place e hm
    rcases List.mem_cons.mp hm with hm | hm
    · cases hm
      refine ⟨name, parent, rfl, proper, ?_⟩
      cases parent with
      | nil => exact Or.inl rfl
      | cons outer rest => exact Or.inr (List.mem_cons.mpr (Or.inr (at?_cons_eq_some_iff.mp inside)))
    · obtain ⟨n, p, he, hn, hp⟩ := v.placed place e hm
      exact ⟨n, p, he, hn, hp.imp id fun h => List.mem_cons.mpr (Or.inr h)⟩

/-- Take out the entry at a place and all below it. -/
def erase (v : Volume) (place : Place) : Volume where
  entries := v.entries.filter fun e => !place.isSuffixOf e.1
  distinct := v.distinct.sublist (List.filter_sublist.map _)
  placed := by
    intro key entry hm
    obtain ⟨hm, hk⟩ := List.mem_filter.mp hm
    obtain ⟨name, parent, rfl, hn, hp⟩ := v.placed key entry hm
    refine ⟨name, parent, rfl, hn, hp.imp id fun h => List.mem_filter.mpr ⟨h, ?_⟩⟩
    have hk' : ¬ place <:+ name :: parent := fun hs => by
      simp [List.isSuffixOf_iff_suffix.mpr hs] at hk
    have hp' : place.isSuffixOf parent = false := by
      refine Bool.eq_false_iff.mpr fun hs => hk' ?_
      exact (List.isSuffixOf_iff_suffix.mp hs).trans (List.suffix_cons name parent)
    simp [hp']

/-- Put an entry into a directory, if that can be done. -/
def insert? (v : Volume) (name : Name) (parent : Place) (entry : Entry) : Option Volume :=
  if h : name.Proper ∧ v.at? parent = some .directory ∧ v.at? (name :: parent) = none then
    some (v.insert name parent entry h.1 h.2.1 h.2.2)
  else none

/-- Make the directories that names ask for from a place on, and say where they lead. -/
def enter? (v : Volume) (place : Place) : List Name → Option (Volume × Place)
  | [] => some (v, place)
  | name :: rest =>
    match v.resolve maxLinks place [name] with
    | .ok next => if v.isDirectory next then v.enter? next rest else none
    | .error _ =>
      match v.insert? name place .directory with
      | some v => v.enter? (name :: place) rest
      | none => none

/-- Make a directory and all around it. -/
def makeDirectory? (v : Volume) (base : Place) (path : Path) : Option Volume :=
  (v.enter? (origin base path) path.names).map Prod.fst

/-- Make the directories around a path and go on with the place they lead to and the last name. -/
def besides? (v : Volume) (base : Place) (path : Path)
    (act : Volume → Place → Name → Option Volume) : Option Volume :=
  let (front, name) := path.parentAndName
  match v.enter? (origin base path) front.names with
  | some (v, parent) => act v parent name
  | none => none

/-- Write a file under a name of a directory. Through a link, the file that it leads to is
written, and made if there is none. -/
def store? (content : Bytes) : Nat → Volume → Place → Name → Option Volume
  | links, v, parent, name =>
    match v.at? (name :: parent) with
    | none => v.insert? name parent (.file content)
    | some (.file _) => (v.erase (name :: parent)).insert? name parent (.file content)
    | some .directory => none
    | some (.link target) =>
      match links with
      | 0 => none
      | links + 1 =>
        let (front, last) := target.parentAndName
        match v.resolve maxLinks (origin parent target) front.names with
        | .ok place => store? content links v place last
        | .error _ => none

/-- Write a file, and make the directories around it. -/
def write? (v : Volume) (base : Place) (path : Path) (content : Bytes) : Option Volume :=
  v.besides? base path (store? content maxLinks)

/-- Make a link, and the directories around it. -/
def makeLink? (v : Volume) (base : Place) (path target : Path) : Option Volume :=
  v.besides? base path fun v parent name => v.insert? name parent (.link target)

/-- Take out what a path leads to, without following a link at its end. Only a directory may have
slashes behind its name. -/
def remove? (v : Volume) (base : Place) (path : Path) : Option Volume :=
  let (front, name) := path.withoutEnd.parentAndName
  match v.resolve maxLinks (origin base path) front.names with
  | .ok parent =>
    match v.at? (name :: parent) with
    | none => none
    | some entry =>
      if entry = .directory ∨ path.withoutEnd = path then some (v.erase (name :: parent)) else none
  | .error _ => none

end Volume

end SheetLint
