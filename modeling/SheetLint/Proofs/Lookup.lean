import SheetLint.Volume

/-!
# Where names lead

`Leads` says where a sequence of names leads from a place when every link on the way is followed,
however many there are, and `LeadsIn` counts them. It leads to one place at most, so what a look-up
finds is determined without its limits; and a look-up finds it exactly when there are no more links
on the way than it may follow.
-/

namespace SheetLint

open Text

namespace Volume

variable {v : Volume} {place target : Place} {names : List Name}

/-- The names lead from the first place to the second. Only a directory has anything in it. -/
inductive Leads (v : Volume) : Place → List Name → Place → Prop where
  | done {place : Place} : Leads v place [] place
  | stay {place target : Place} {name : Name} {rest : List Name}
      (inside : v.at? place = some .directory) (same : name = [] ∨ name = Name.here)
      (further : Leads v place rest target) : Leads v place (name :: rest) target
  | up {place target : Place} {rest : List Name} (inside : v.at? place = some .directory)
      (further : Leads v place.tail rest target) : Leads v place (Name.above :: rest) target
  | down {place target : Place} {name : Name} {rest : List Name} {entry : Entry}
      (found : v.at? (name :: place) = some entry) (real : ∀ path, entry ≠ .link path)
      (further : Leads v (name :: place) rest target) : Leads v place (name :: rest) target
  | through {place middle target : Place} {name : Name} {rest : List Name} {path : Path}
      (found : v.at? (name :: place) = some (.link path))
      (followed : Leads v (origin place path) path.names middle)
      (further : Leads v middle rest target) : Leads v place (name :: rest) target

/-- The names lead from the first place to the second, and so many links are followed on the way. -/
inductive LeadsIn (v : Volume) : Nat → Place → List Name → Place → Prop where
  | done {place : Place} : LeadsIn v 0 place [] place
  | stay {links : Nat} {place target : Place} {name : Name} {rest : List Name}
      (inside : v.at? place = some .directory) (same : name = [] ∨ name = Name.here)
      (further : LeadsIn v links place rest target) : LeadsIn v links place (name :: rest) target
  | up {links : Nat} {place target : Place} {rest : List Name}
      (inside : v.at? place = some .directory) (further : LeadsIn v links place.tail rest target) :
      LeadsIn v links place (Name.above :: rest) target
  | down {links : Nat} {place target : Place} {name : Name} {rest : List Name} {entry : Entry}
      (found : v.at? (name :: place) = some entry) (real : ∀ path, entry ≠ .link path)
      (further : LeadsIn v links (name :: place) rest target) :
      LeadsIn v links place (name :: rest) target
  | through {first links : Nat} {place middle target : Place} {name : Name} {rest : List Name}
      {path : Path} (found : v.at? (name :: place) = some (.link path))
      (followed : LeadsIn v first (origin place path) path.names middle)
      (further : LeadsIn v links middle rest target) :
      LeadsIn v (first + links + 1) place (name :: rest) target

theorem leads_iff : v.Leads place names target ↔ ∃ links, v.LeadsIn links place names target := by
  constructor
  · intro h
    induction h with
    | done => exact ⟨0, .done⟩
    | stay inside same _ ih => exact ih.imp fun _ further => .stay inside same further
    | up inside _ ih => exact ih.imp fun _ further => .up inside further
    | down found real _ ih => exact ih.imp fun _ further => .down found real further
    | through found _ _ ihf ih =>
      obtain ⟨first, followed⟩ := ihf
      obtain ⟨links, further⟩ := ih
      exact ⟨first + links + 1, .through found followed further⟩
  · rintro ⟨links, h⟩
    induction h with
    | done => exact .done
    | stay inside same _ ih => exact .stay inside same ih
    | up inside _ ih => exact .up inside ih
    | down found real _ ih => exact .down found real ih
    | through found _ _ ihf ih => exact .through found ihf ih

theorem LeadsIn.leads {links : Nat} (h : v.LeadsIn links place names target) :
    v.Leads place names target :=
  leads_iff.mpr ⟨links, h⟩

theorem LeadsIn.append {links more : Nat} {middle : Place} {front rest : List Name}
    (hfront : v.LeadsIn links place front middle) (hrest : v.LeadsIn more middle rest target) :
    v.LeadsIn (links + more) place (front ++ rest) target := by
  induction hfront with
  | done => simpa using hrest
  | stay inside same _ ih => exact .stay inside same (ih hrest)
  | up inside _ ih => exact .up inside (ih hrest)
  | down found real _ ih => exact .down found real (ih hrest)
  | @through first links _ _ _ _ _ _ found followed _ _ ih =>
    have hsum : first + links + 1 + more = first + (links + more) + 1 := by omega
    rw [hsum]
    exact .through found followed (ih hrest)

theorem LeadsIn.of_append {links : Nat} {front rest : List Name}
    (h : v.LeadsIn links place (front ++ rest) target) :
    ∃ first more middle, links = first + more ∧ v.LeadsIn first place front middle ∧
      v.LeadsIn more middle rest target := by
  induction front generalizing links place with
  | nil => exact ⟨0, links, place, by omega, .done, h⟩
  | cons name front ih =>
    cases h with
    | stay inside same further =>
      obtain ⟨first, more, middle, hsum, hfront, hrest⟩ := ih further
      exact ⟨first, more, middle, hsum, .stay inside same hfront, hrest⟩
    | up inside further =>
      obtain ⟨first, more, middle, hsum, hfront, hrest⟩ := ih further
      exact ⟨first, more, middle, hsum, .up inside hfront, hrest⟩
    | down found real further =>
      obtain ⟨first, more, middle, hsum, hfront, hrest⟩ := ih further
      exact ⟨first, more, middle, hsum, .down found real hfront, hrest⟩
    | @through linked _ _ _ _ _ _ _ found followed further =>
      obtain ⟨first, more, middle, hsum, hfront, hrest⟩ := ih further
      exact ⟨linked + first + 1, more, middle, by omega, .through found followed hfront, hrest⟩

theorem Leads.append {middle : Place} {front rest : List Name} (hfront : v.Leads place front middle)
    (hrest : v.Leads middle rest target) : v.Leads place (front ++ rest) target := by
  obtain ⟨first, hfront⟩ := leads_iff.mp hfront
  obtain ⟨more, hrest⟩ := leads_iff.mp hrest
  exact (hfront.append hrest).leads

/-- A proper name is neither of those that do not name an entry. -/
theorem name_ne_of_at? {name : Name} {entry : Entry} (h : v.at? (name :: place) = some entry) :
    ¬ (name = [] ∨ name = Name.here) ∧ name ≠ Name.above := by
  have hproper := proper_of_at? h
  refine ⟨?_, hproper.not_above⟩
  rintro (hnil | hhere)
  · exact hproper.nonempty hnil
  · exact hproper.not_here hhere

/-- The case split is on what the first name is, and an entry's name is proper, so only the two
rules for the same kind of name can meet. -/
theorem Leads.unique {other : Place} (h : v.Leads place names target)
    (h' : v.Leads place names other) : target = other := by
  induction h generalizing other with
  | done =>
    cases h'
    rfl
  | stay inside same _ ih =>
    cases h' with
    | stay _ _ further => exact ih further
    | up => exact absurd same (by decide)
    | down found => exact absurd same (name_ne_of_at? found).1
    | through found => exact absurd same (name_ne_of_at? found).1
  | up inside _ ih =>
    cases h' with
    | stay _ same => exact absurd same (by decide)
    | up _ further => exact ih further
    | down found => exact absurd rfl (name_ne_of_at? found).2
    | through found => exact absurd rfl (name_ne_of_at? found).2
  | down found real _ ih =>
    cases h' with
    | stay _ same => exact absurd same (name_ne_of_at? found).1
    | up => exact absurd rfl (name_ne_of_at? found).2
    | down _ _ further => exact ih further
    | through found' =>
      rw [found] at found'
      exact absurd (Option.some.inj found') (real _)
  | through found _ _ ihf ih =>
    cases h' with
    | stay _ same => exact absurd same (name_ne_of_at? found).1
    | up => exact absurd rfl (name_ne_of_at? found).2
    | down found' real =>
      rw [found] at found'
      exact absurd (Option.some.inj found').symm (real _)
    | through found' followed further =>
      rw [found] at found'
      cases found'
      cases ihf followed
      exact ih further

theorem Leads.at?_of_cons {name : Name} {rest : List Name}
    (h : v.Leads place (name :: rest) target) : v.at? place = some .directory := by
  cases h with
  | stay inside => exact inside
  | up inside => exact inside
  | down found => exact at?_parent found
  | through found => exact at?_parent found

theorem at?_origin (h : v.at? place = some .directory) (path : Path) :
    v.at? (origin place path) = some .directory := by
  rw [origin]
  split
  · rfl
  · exact h

theorem at?_tail (h : v.at? place = some .directory) : v.at? place.tail = some .directory := by
  cases place with
  | nil => rfl
  | cons name parent => exact at?_parent h

/-- Names that lead out of a directory lead to a directory or a file. -/
theorem Leads.at?_target (h : v.Leads place names target)
    (hplace : ∃ entry, v.at? place = some entry ∧ ∀ path, entry ≠ .link path) :
    ∃ entry, v.at? target = some entry ∧ ∀ path, entry ≠ .link path := by
  induction h with
  | done => exact hplace
  | stay _ _ _ ih => exact ih hplace
  | up inside _ ih => exact ih ⟨.directory, at?_tail inside, by simp⟩
  | down found real _ ih => exact ih ⟨_, found, real⟩
  | through found _ _ ihf ih =>
    exact ih (ihf ⟨.directory, at?_origin (at?_parent found) _, by simp⟩)

section Resolve

variable {links : Nat} {name : Name} {rest : List Name}

theorem resolve_stay (inside : v.at? place = some .directory)
    (same : name = [] ∨ name = Name.here) :
    v.resolve links place (name :: rest) = v.resolve links place rest := by
  have hdir := isDirectory_iff.mpr inside
  cases links <;> simp [resolve, advance, hdir, same]

theorem resolve_up (inside : v.at? place = some .directory) :
    v.resolve links place (Name.above :: rest) = v.resolve links place.tail rest := by
  have hdir := isDirectory_iff.mpr inside
  have hsame : ¬ (Name.above = [] ∨ Name.above = Name.here) := by decide
  cases links <;> simp only [resolve, advance, hdir, Bool.true_eq_false, if_false, hsame, if_true]

theorem resolve_down {entry : Entry} (found : v.at? (name :: place) = some entry)
    (real : ∀ path, entry ≠ .link path) :
    v.resolve links place (name :: rest) = v.resolve links (name :: place) rest := by
  have hdir := isDirectory_iff.mpr (at?_parent found)
  obtain ⟨hsame, habove⟩ := name_ne_of_at? found
  have hshort : ¬ Name.maxLength < name.length := Nat.not_lt.mpr (proper_of_at? found).short
  cases entry with
  | link path => exact absurd rfl (real path)
  | directory => cases links <;> simp [resolve, advance, hdir, hsame, habove, hshort, found]
  | file content => cases links <;> simp [resolve, advance, hdir, hsame, habove, hshort, found]

theorem resolve_through {path : Path} (found : v.at? (name :: place) = some (.link path)) :
    v.resolve (links + 1) place (name :: rest) =
      v.resolve links (origin place path) (path.names ++ rest) := by
  have hdir := isDirectory_iff.mpr (at?_parent found)
  obtain ⟨hsame, habove⟩ := name_ne_of_at? found
  have hshort : ¬ Name.maxLength < name.length := Nat.not_lt.mpr (proper_of_at? found).short
  simp [resolve, advance, hdir, hsame, habove, hshort, found]

end Resolve

/-- A look-up gets to where the first names lead with as many links left as they did not need. -/
theorem LeadsIn.resolve_append {links : Nat} (h : v.LeadsIn links place names target) (more : Nat)
    (rest : List Name) :
    v.resolve (links + more) place (names ++ rest) = v.resolve more target rest := by
  induction h generalizing more rest with
  | done => simp
  | stay inside same _ ih => rw [List.cons_append, resolve_stay inside same, ih]
  | up inside _ ih => rw [List.cons_append, resolve_up inside, ih]
  | down found real _ ih => rw [List.cons_append, resolve_down found real, ih]
  | @through first links _ _ _ _ _ _ found _ _ ihf ih =>
    have hsum : first + links + 1 + more = first + (links + more) + 1 := by omega
    rw [List.cons_append, hsum, resolve_through found, ihf, ih]

/-- What is found with links to follow is found by `follow` wherever a link is met. -/
theorem leadsIn_of_advance {limit : Nat} {follow : Place → List Name → Except OsError Place}
    (hfollow : ∀ {place names target}, follow place names = .ok target →
      ∃ links < limit, v.LeadsIn links place names target)
    (h : v.advance follow place names = .ok target) :
    ∃ links ≤ limit, v.LeadsIn links place names target := by
  induction names generalizing place with
  | nil =>
    cases h
    exact ⟨0, Nat.zero_le _, .done⟩
  | cons name rest ih =>
    rw [advance] at h
    split at h
    · cases h
    next hdir =>
    have inside : v.at? place = some .directory := isDirectory_iff.mp (by simpa using hdir)
    split at h
    · next same =>
      obtain ⟨links, hle, further⟩ := ih h
      exact ⟨links, hle, .stay inside same further⟩
    split at h
    · next habove =>
      subst habove
      obtain ⟨links, hle, further⟩ := ih h
      exact ⟨links, hle, .up inside further⟩
    split at h
    · cases h
    split at h
    · cases h
    · next path found =>
      obtain ⟨links, hlt, hleads⟩ := hfollow h
      obtain ⟨first, more, middle, rfl, followed, further⟩ := hleads.of_append
      exact ⟨first + more + 1, hlt, .through found followed further⟩
    · next entry real found =>
      obtain ⟨links, hle, further⟩ := ih h
      exact ⟨links, hle, .down found (fun path hp => real path (hp ▸ rfl)) further⟩

/-- A look-up finds what the names lead to through no more links than it may follow. -/
theorem resolve_eq_ok_iff {limit : Nat} :
    v.resolve limit place names = .ok target ↔
      ∃ links ≤ limit, v.LeadsIn links place names target := by
  constructor
  · intro h
    induction limit generalizing place names target with
    | zero => exact leadsIn_of_advance (fun h => by cases h) h
    | succ limit ih =>
      refine leadsIn_of_advance (fun h => ?_) h
      obtain ⟨links, hle, hleads⟩ := ih h
      exact ⟨links, Nat.lt_succ_of_le hle, hleads⟩
  · rintro ⟨links, hle, hleads⟩
    obtain ⟨more, rfl⟩ := Nat.exists_eq_add_of_le hle
    have hall := hleads.resolve_append more []
    rw [List.append_nil] at hall
    rw [hall]
    cases more <;> rfl

/-- The path leads to the target from the current directory `base`, and a look-up can follow it. -/
structure Reaches (v : Volume) (base : Place) (path : Path) (target : Place) : Prop where
  nonempty : path ≠ []
  no_nul : 0 ∉ path
  short : path.length ≤ Path.maxLength
  leads : ∃ links ≤ maxLinks, v.LeadsIn links (origin base path) path.names target

@[simp] theorem mapError_ok {ε ε' α : Type} (f : ε → ε') (a : α) :
    (Except.ok a).mapError f = .ok a := rfl

@[simp] theorem mapError_error {ε ε' α : Type} (f : ε → ε') (error : ε) :
    (Except.error error : Except ε α).mapError f = .error (f error) := rfl

theorem find_eq_ok_iff {base : Place} {path : Path} :
    v.find base path = .ok target ↔ v.Reaches base path target := by
  have hmap : ∀ result : Except OsError Place,
      result.mapError PathFailure.os = .ok target ↔ result = .ok target := by
    intro result
    cases result <;> simp
  constructor
  · intro h
    rw [find] at h
    split at h
    · cases h
    next hnul =>
    split at h
    · cases h
    next hne =>
    split at h
    · cases h
    next hshort =>
    exact ⟨hne, by simpa using hnul, Nat.not_lt.mp hshort, resolve_eq_ok_iff.mp ((hmap _).mp h)⟩
  · rintro ⟨hne, hnul, hshort, hleads⟩
    have hcontains : path.contains 0 = false := by simpa using hnul
    rw [find, hcontains, if_neg Bool.false_ne_true, if_neg hne, if_neg (Nat.not_lt.mpr hshort)]
    exact (hmap _).mpr (resolve_eq_ok_iff.mpr hleads)

theorem find_of_long {base : Place} {path : Path} (hnul : 0 ∉ path)
    (hlong : Path.maxLength < path.length) : v.find base path = .error (.os .nameTooLong) := by
  have hcontains : path.contains 0 = false := by simpa using hnul
  have hne : path ≠ [] := by
    rintro rfl
    simp at hlong
  rw [find, hcontains, if_neg Bool.false_ne_true, if_neg hne, if_pos hlong]

theorem leads_of_find {base : Place} {path : Path} (h : v.find base path = .ok target) :
    path ≠ [] ∧ v.Leads (origin base path) path.names target := by
  obtain ⟨hne, -, -, links, -, hleads⟩ := find_eq_ok_iff.mp h
  exact ⟨hne, hleads.leads⟩

/-- Slashes behind the path of a directory change nothing. -/
theorem Reaches.append_slashes {base : Place} {path : Path} (h : v.Reaches base path place)
    (inside : v.at? place = some .directory) (count : Nat)
    (hshort : (path ++ List.replicate count Path.slash).length ≤ Path.maxLength) :
    v.Reaches base (path ++ List.replicate count Path.slash) place := by
  obtain ⟨hne, hnul, -, links, hle, hleads⟩ := h
  have horigin : origin base (path ++ List.replicate count Path.slash) = origin base path := by
    obtain ⟨b, rest, rfl⟩ := List.exists_cons_of_ne_nil hne
    rfl
  have hslashes : ∀ n, v.LeadsIn 0 place (Path.names (List.replicate n Path.slash)) place := by
    intro n
    induction n with
    | zero => exact .stay inside (Or.inl rfl) .done
    | succ n ih => exact .stay inside (Or.inl rfl) ih
  refine ⟨by simp [hne], ?_, hshort, links, hle, ?_⟩
  · simp [hnul, Path.slash]
  · rw [horigin]
    cases count with
    | zero => simpa using hleads
    | succ n =>
      rw [List.replicate_succ, Path.names, split_append]
      exact hleads.append (hslashes n)

theorem isAbsolute_of_proper {name : Name} (hname : name.Proper) :
    Path.isAbsolute name = false := by
  cases name with
  | nil => rfl
  | cons b name =>
    have hb : b ≠ Path.slash := fun h => hname.no_slash (by simp [h, Path.slash])
    simp [Path.isAbsolute, hb]

/-- What is looked up behind a path starts where the path starts. -/
theorem origin_join_of_relative {path next : Path} (hpath : path ≠ [])
    (hnext : next.isAbsolute = false) (base : Place) :
    origin base (path.join next) = origin base path := by
  have habs : (path.join next).isAbsolute = path.isAbsolute := by
    obtain ⟨b, rest, rfl⟩ := List.exists_cons_of_ne_nil hpath
    rw [Path.join, hnext, if_neg (by simp)]
    split <;> rfl
  rw [origin, origin, habs]

theorem origin_join {path : Path} (hpath : path ≠ []) {name : Name} (hname : name.Proper)
    (base : Place) : origin base (path.join name) = origin base path :=
  origin_join_of_relative hpath (isAbsolute_of_proper hname) base

theorem join_ne_nil_of_relative {path next : Path} (hpath : path ≠ [])
    (hnext : next.isAbsolute = false) : path.join next ≠ [] := by
  rw [Path.join, hnext, if_neg (by simp)]
  split <;> simp [hpath]

theorem join_ne_nil {path : Path} (hpath : path ≠ []) {name : Name} (hname : name.Proper) :
    path.join name ≠ [] :=
  join_ne_nil_of_relative hpath (isAbsolute_of_proper hname)

theorem length_le_join (path : Path) {name : Name} (hname : name.Proper) :
    path.length + name.length ≤ (path.join name).length := by
  rw [Path.join, isAbsolute_of_proper hname, if_neg (by simp)]
  split <;> simp

/-- A slash at the end of a path leaves an empty name, which is not there any more when something
is looked up behind the path. -/
theorem names_join_of_relative {path next : Path} (hpath : path ≠ [])
    (hnext : next.isAbsolute = false) :
    ∃ front, (path.names = front ∨ path.names = front ++ [[]]) ∧
      (path.join next).names = front ++ next.names := by
  rw [Path.join, hnext, if_neg (by simp)]
  by_cases hlast : path.getLast? = some Path.slash
  · obtain ⟨front, rfl⟩ := List.getLast?_eq_some_iff.mp hlast
    refine ⟨split Path.slash front, Or.inr ?_, ?_⟩
    · rw [Path.names, split_append]
      rfl
    · rw [if_pos (Or.inr hlast), List.append_assoc, List.singleton_append, Path.names, split_append]
      rfl
  · refine ⟨path.names, Or.inl rfl, ?_⟩
    rw [if_neg (not_or.mpr ⟨hpath, hlast⟩), Path.names, split_append]
    rfl

theorem names_join {path : Path} (hpath : path ≠ []) {name : Name} (hname : name.Proper) :
    ∃ front, (path.names = front ∨ path.names = front ++ [[]]) ∧
      (path.join name).names = front ++ [name] := by
  have hsingle : Path.names name = [name] := split_of_not_mem hname.no_slash
  rw [← hsingle]
  exact names_join_of_relative hpath (isAbsolute_of_proper hname)

theorem LeadsIn.of_append_empty {links : Nat} {front : List Name}
    (h : v.LeadsIn links place (front ++ [[]]) target) : v.LeadsIn links place front target := by
  obtain ⟨first, more, middle, rfl, hfront, hempty⟩ := h.of_append
  cases hempty with
  | stay _ _ further =>
    cases further
    exact hfront
  | down found => exact absurd (Or.inl rfl) (name_ne_of_at? found).1
  | through found => exact absurd (Or.inl rfl) (name_ne_of_at? found).1

/-- A look-up behind the path of a directory goes on from the directory, with the links that are
left to follow. -/
theorem LeadsIn.resolve_join {links : Nat} {base : Place} {path next : Path} (hpath : path ≠ [])
    (hnext : next.isAbsolute = false) (h : v.LeadsIn links (origin base path) path.names place)
    (more : Nat) :
    v.resolve (links + more) (origin base (path.join next)) (path.join next).names =
      v.resolve more place next.names := by
  obtain ⟨front, hnames, hjoin⟩ := names_join_of_relative hpath hnext
  have hfront : v.LeadsIn links (origin base path) front place := by
    rcases hnames with hnames | hnames
    · exact hnames ▸ h
    · exact (hnames ▸ h).of_append_empty
  rw [hjoin, origin_join_of_relative hpath hnext, hfront.resolve_append]

/-- The path of an entry leads where the entry's name leads in the directory. -/
theorem leadsIn_join_iff {links : Nat} {path : Path} (hpath : path ≠ []) {name : Name}
    (hname : name.Proper) :
    v.LeadsIn links place (path.join name).names target ↔ ∃ first more middle,
      links = first + more ∧ v.LeadsIn first place path.names middle ∧
        v.LeadsIn more middle [name] target := by
  obtain ⟨front, hnames, hjoin⟩ := names_join hpath hname
  rw [hjoin]
  constructor
  · intro h
    obtain ⟨first, more, middle, hsum, hfront, hlast⟩ := h.of_append
    refine ⟨first, more, middle, hsum, ?_, hlast⟩
    rcases hnames with hnames | hnames
    · rwa [hnames]
    · rw [hnames]
      exact hfront.append (.stay hlast.leads.at?_of_cons (Or.inl rfl) .done)
  · rintro ⟨first, more, middle, rfl, hfront, hlast⟩
    rcases hnames with hnames | hnames
    · rw [hnames] at hfront
      exact hfront.append hlast
    · rw [hnames] at hfront
      exact hfront.of_append_empty.append hlast

theorem leads_join_iff {path : Path} (hpath : path ≠ []) {name : Name} (hname : name.Proper) :
    v.Leads place (path.join name).names target ↔
      ∃ middle, v.Leads place path.names middle ∧ v.Leads middle [name] target := by
  constructor
  · intro h
    obtain ⟨links, h⟩ := leads_iff.mp h
    obtain ⟨first, more, middle, -, hfront, hlast⟩ := (leadsIn_join_iff hpath hname).mp h
    exact ⟨middle, hfront.leads, hlast.leads⟩
  · rintro ⟨middle, hfront, hlast⟩
    obtain ⟨first, hfront⟩ := leads_iff.mp hfront
    obtain ⟨more, hlast⟩ := leads_iff.mp hlast
    exact ((leadsIn_join_iff hpath hname).mpr ⟨first, more, middle, rfl, hfront, hlast⟩).leads

theorem nul_mem_join_iff {path next : Path} (hnext : next.isAbsolute = false) :
    0 ∈ path.join next ↔ 0 ∈ path ∨ 0 ∈ next := by
  have hslash : (0 : UInt8) ≠ Path.slash := by decide
  rw [Path.join, hnext, if_neg (by simp)]
  split <;> simp [hslash]

theorem nul_not_mem_join {path : Path} (hpath : 0 ∉ path) {name : Name} (hname : name.Proper) :
    0 ∉ path.join name := by
  simp [nul_mem_join_iff (isAbsolute_of_proper hname), hpath, hname.no_nul]

/-- A look-up that finds a directory finds its entries that are no links. -/
theorem Reaches.entry {base : Place} {path : Path} (h : v.Reaches base path place) {name : Name}
    {entry : Entry} (found : v.at? (name :: place) = some entry) (real : ∀ path, entry ≠ .link path)
    (hshort : (path.join name).length ≤ Path.maxLength) :
    v.Reaches base (path.join name) (name :: place) := by
  obtain ⟨hne, hnul, -, links, hle, hleads⟩ := h
  have hname := proper_of_at? found
  refine ⟨join_ne_nil hne hname, nul_not_mem_join hnul hname, hshort, links, hle, ?_⟩
  rw [origin_join hne hname]
  exact (leadsIn_join_iff hne hname).mpr ⟨links, 0, place, rfl, hleads, .down found real .done⟩

theorem read_of_reaches {base : Place} {path : Path} (h : v.Reaches base path target)
    {content : Bytes} (regular : v.at? target = some (.file content)) :
    v.read base path = .ok content := by
  rw [read, find_eq_ok_iff.mpr h]
  simp only [regular]

end Volume

end SheetLint
