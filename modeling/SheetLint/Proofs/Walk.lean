import Mathlib.Data.List.Nodup
import SheetLint.Proofs.Lookup
import SheetLint.Proofs.Text.Utf8
import SheetLint.Walk

/-!
# What a walk lists

`Below` says which files there are below a directory, by the names that lead down to them, and
mentions neither the paths nor the limits nor the order of a walk. A walk that ends without an error
lists exactly these files, each under each sequence of names once. The invariant is that the path
under which a directory is walked still leads to it.
-/

namespace SheetLint

open Text

namespace Name

/-- The name of a directory that is not entered. -/
def Hidden (name : Name) : Prop := ∃ cs, name = encode ('.' :: cs)

theorem isHidden_iff {name : Name} : name.isHidden = true ↔ name.Hidden := by
  have hdot : String.utf8EncodeChar '.' = [dot] := by decide
  rw [isHidden, Bool.and_eq_true, isWellFormed_iff, beq_iff_eq]
  constructor
  · rintro ⟨⟨cs, rfl⟩, hhead⟩
    obtain ⟨rest, hrest⟩ := List.head?_eq_some_iff.mp hhead
    have hread : cs = '.' :: decodeLossy rest := by
      rw [← decodeLossy_encode cs, hrest]
      exact readFrom_ascii (by decide) .idle rest
    exact ⟨decodeLossy rest, congrArg encode hread⟩
  · rintro ⟨cs, rfl⟩
    refine ⟨⟨_, rfl⟩, ?_⟩
    rw [encode_cons, hdot]
    rfl

instance : DecidablePred Hidden := fun _ => decidable_of_iff _ isHidden_iff

end Name

namespace Volume

variable {v : Volume} {place target : Place} {name : Name}

/-- The entry with the name in the directory at `place` is what stands at the other place, directly
or through a link. -/
inductive Opens (v : Volume) (place : Place) (name : Name) : Place → Prop where
  | itself {entry : Entry} (found : v.at? (name :: place) = some entry)
      (real : ∀ path, entry ≠ .link path) : Opens v place name (name :: place)
  | through {path : Path} {target : Place} (found : v.at? (name :: place) = some (.link path))
      (followed : v.Leads (origin place path) path.names target) : Opens v place name target

/-- The names, outermost first, lead from the directory at a place to a file, and on the way through
directories that are not hidden. -/
inductive Below (v : Volume) : Place → List Name → Prop where
  | file {place target : Place} {name : Name} {content : Bytes} (opens : v.Opens place name target)
      (regular : v.at? target = some (.file content)) : Below v place [name]
  | inside {place target : Place} {name : Name} {chain : List Name}
      (opens : v.Opens place name target) (directory : v.at? target = some .directory)
      (entered : ¬ name.Hidden) (further : Below v target chain) : Below v place (name :: chain)

theorem Opens.leads (h : v.Opens place name target) : v.Leads place [name] target := by
  cases h with
  | itself found real => exact .down found real .done
  | through found followed => exact .through found followed .done

/-- Where names lead that start with a proper one, its entry is opened first. -/
theorem Leads.exists_opens {rest : List Name} (h : v.Leads place (name :: rest) target)
    (hname : name.Proper) : ∃ middle, v.Opens place name middle ∧ v.Leads middle rest target := by
  cases h with
  | stay _ same => exact absurd same (not_or.mpr ⟨hname.nonempty, hname.not_here⟩)
  | up => exact absurd rfl hname.not_above
  | down found real further => exact ⟨_, .itself found real, further⟩
  | through found followed further => exact ⟨_, .through found followed, further⟩

theorem opens_of_leads {entry : Entry} (found : v.at? (name :: place) = some entry)
    (h : v.Leads place [name] target) : v.Opens place name target := by
  obtain ⟨middle, opens, further⟩ := h.exists_opens (proper_of_at? found)
  cases further
  exact opens

theorem Opens.unique {other : Place} (h : v.Opens place name target)
    (h' : v.Opens place name other) : target = other :=
  h.leads.unique h'.leads

theorem Opens.found (h : v.Opens place name target) :
    ∃ entry, v.at? (name :: place) = some entry := by
  cases h with
  | itself found => exact ⟨_, found⟩
  | through found => exact ⟨_, found⟩

/-- An entry is or leads to a directory or a file. -/
theorem Opens.at?_target (h : v.Opens place name target) :
    v.at? target = some .directory ∨ ∃ content, v.at? target = some (.file content) := by
  obtain ⟨entry, found⟩ := h.found
  obtain ⟨last, hlast, hreal⟩ := h.leads.at?_target ⟨.directory, at?_parent found, by simp⟩
  cases last with
  | directory => exact Or.inl hlast
  | file content => exact Or.inr ⟨content, hlast⟩
  | link path => exact absurd rfl (hreal path)

/-- Below a file's name there is the file. -/
theorem below_file_iff {content : Bytes} {chain : List Name} (opens : v.Opens place name target)
    (regular : v.at? target = some (.file content)) :
    v.Below place (name :: chain) ↔ chain = [] := by
  constructor
  · intro h
    cases h with
    | file => rfl
    | inside opens' directory =>
      cases opens.unique opens'
      rw [regular] at directory
      cases directory
  · rintro rfl
    exact .file opens regular

/-- Below a directory's name there is what is below the directory, unless the name hides it. -/
theorem below_directory_iff {chain : List Name} (opens : v.Opens place name target)
    (directory : v.at? target = some .directory) :
    v.Below place (name :: chain) ↔ ¬ name.Hidden ∧ v.Below target chain := by
  constructor
  · intro h
    cases h with
    | file opens' regular =>
      cases opens.unique opens'
      rw [directory] at regular
      cases regular
    | inside opens' _ entered further =>
      cases opens.unique opens'
      exact ⟨entered, further⟩
  · rintro ⟨entered, further⟩
    exact .inside opens directory entered further

theorem Below.exists_cons {chain : List Name} (h : v.Below place chain) :
    ∃ name rest, chain = name :: rest ∧ name ∈ v.names place := by
  cases h with
  | file opens => exact ⟨_, _, rfl, mem_names_iff.mpr opens.found⟩
  | inside opens => exact ⟨_, _, rfl, mem_names_iff.mpr opens.found⟩

theorem nodup_names (v : Volume) (place : Place) : (v.names place).Nodup := by
  have hkeys : v.names place = (v.entries.map Prod.fst).filterMap fun
      | name :: parent => if parent = place then some name else none
      | [] => none := by
    rw [List.filterMap_map]
    apply List.filterMap_congr
    rintro ⟨key, entry⟩ _
    cases key <;> rfl
  rw [hkeys]
  apply List.Nodup.filterMap _ v.distinct
  intro key key' name hkey hkey'
  cases key <;> cases key' <;> simp_all

end Volume

namespace Scope

variable {scope : Scope} {here : Visit} {above : List Visit} {name : Name} {place : Place}

/-- The directory that is being walked is the one that its path leads to. -/
structure Stands (scope : Scope) (here : Visit) : Prop where
  directory : scope.volume.at? here.place = some .directory
  nonempty : scope.pathOf here.trail ≠ []
  leads : scope.volume.Leads (Volume.origin scope.base (scope.pathOf here.trail))
    (scope.pathOf here.trail).names here.place

theorem pathOf_cons (scope : Scope) (name : Name) (trail : List Name) :
    scope.pathOf (name :: trail) = (scope.pathOf trail).join name := rfl

/-- The path of an entry leads where the entry's name leads. -/
theorem Stands.leads_iff (hhere : scope.Stands here) (hname : name.Proper) {target : Place} :
    scope.volume.Leads (Volume.origin scope.base (scope.pathOf (name :: here.trail)))
      (scope.pathOf (name :: here.trail)).names target ↔
        scope.volume.Leads here.place [name] target := by
  rw [pathOf_cons, Volume.origin_join hhere.nonempty hname,
    Volume.leads_join_iff hhere.nonempty hname]
  constructor
  · rintro ⟨middle, hmiddle, hlast⟩
    cases hhere.leads.unique hmiddle
    exact hlast
  · intro hlast
    exact ⟨here.place, hhere.leads, hlast⟩

theorem Stands.enter (hhere : scope.Stands here) (opens : scope.volume.Opens here.place name place)
    (directory : scope.volume.at? place = some .directory) :
    scope.Stands ⟨place, name :: here.trail⟩ := by
  obtain ⟨entry, found⟩ := opens.found
  have hname := Volume.proper_of_at? found
  refine ⟨directory, ?_, (hhere.leads_iff hname).mpr opens.leads⟩
  rw [pathOf_cons]
  exact Volume.join_ne_nil hhere.nonempty hname

/-- What a walk does with an entry if there is no error: it lists what is or leads to a file and
enters what is or leads to a directory, unless its name hides it. -/
inductive Meets (scope : Scope) (here : Visit) (name : Name) : Met → Prop where
  | hidden {place : Place} (opens : scope.volume.Opens here.place name place)
      (directory : scope.volume.at? place = some .directory) (hidden : name.Hidden) :
      Meets scope here name .nothing
  | file {place : Place} {content : Bytes} (opens : scope.volume.Opens here.place name place)
      (regular : scope.volume.at? place = some (.file content)) : Meets scope here name .file
  | directory {place : Place} (opens : scope.volume.Opens here.place name place)
      (directory : scope.volume.at? place = some .directory) (entered : ¬ name.Hidden) :
      Meets scope here name (.directory place)

theorem Meets.stands (h : scope.Meets here name (.directory place)) (hhere : scope.Stands here) :
    scope.Stands ⟨place, name :: here.trail⟩ := by
  cases h with
  | directory opens directory => exact hhere.enter opens directory

theorem meets_of_enter {met : Met} (opens : scope.volume.Opens here.place name place)
    (directory : scope.volume.at? place = some .directory)
    (h : scope.enter here name place = .ok met) : scope.Meets here name met := by
  rw [enter] at h
  split at h
  · next hidden =>
    cases h
    exact .hidden opens directory (Name.isHidden_iff.mp hidden)
  next hidden =>
  split at h
  · cases h
  cases h
  exact .directory opens directory fun entered => hidden (Name.isHidden_iff.mpr entered)

theorem meets_of_meet {met : Met} (hhere : scope.Stands here)
    (hname : name ∈ scope.volume.names here.place) (h : scope.meet here above name = .ok met) :
    scope.Meets here name met := by
  obtain ⟨entry, found⟩ := Volume.mem_names_iff.mp hname
  have hproper := Volume.proper_of_at? found
  rw [meet] at h
  split at h
  · next hnone =>
    rw [found] at hnone
    cases hnone
  · next content hfile =>
    cases h
    exact .file (.itself hfile (by simp)) hfile
  · next hdir => exact meets_of_enter (.itself hdir (by simp)) hdir h
  split at h
  · cases h
  next place htarget =>
  have hleads := (hhere.leads_iff hproper).mp (Volume.leads_of_find htarget).2
  have opens := Volume.opens_of_leads found hleads
  split at h
  · next hdir =>
    split at h
    · cases h
    · exact meets_of_enter opens (Volume.isDirectory_iff.mp hdir) h
  · next hdir =>
    cases h
    rcases opens.at?_target with directory | ⟨content, regular⟩
    · exact absurd (Volume.isDirectory_iff.mpr directory) hdir
    · exact .file opens regular

/-- The trail, innermost name first, leads to a file that is the entry `name` of the directory
`here` or is below it. -/
def Under (scope : Scope) (here : Visit) (name : Name) (trail : List Name) : Prop :=
  ∃ chain, scope.volume.Below here.place (name :: chain) ∧
    trail = chain.reverse ++ name :: here.trail

theorem Under.name_unique {other : Name} {trail : List Name} (h : scope.Under here name trail)
    (h' : scope.Under here other trail) : name = other := by
  obtain ⟨chain, _, rfl⟩ := h
  obtain ⟨chain', _, heq⟩ := h'
  have hlen : (chain.reverse ++ [name]).length = (chain'.reverse ++ [other]).length := by
    have := congrArg List.length heq
    simp only [List.length_append, List.length_cons, List.length_nil] at this ⊢
    omega
  have hcut : (chain.reverse ++ [name]) ++ here.trail =
      (chain'.reverse ++ [other]) ++ here.trail := by
    simpa using heq
  have hfront := List.append_inj_left hcut hlen
  have hlast := List.append_inj_right' hfront rfl
  simpa using hlast

/-- Nothing is listed under the name of a hidden directory. -/
theorem under_nothing (h : scope.Meets here name .nothing) (trail : List Name) :
    ¬ scope.Under here name trail := by
  rintro ⟨chain, hbelow, _⟩
  cases h with
  | hidden opens directory hidden =>
    exact ((Volume.below_directory_iff opens directory).mp hbelow).1 hidden

theorem under_file (h : scope.Meets here name .file) (trail : List Name) :
    scope.Under here name trail ↔ trail = name :: here.trail := by
  cases h with
  | file opens regular =>
    constructor
    · rintro ⟨chain, hbelow, rfl⟩
      cases (Volume.below_file_iff opens regular).mp hbelow
      rfl
    · rintro rfl
      exact ⟨[], (Volume.below_file_iff opens regular).mpr rfl, rfl⟩

theorem under_directory (h : scope.Meets here name (.directory place)) (trail : List Name) :
    scope.Under here name trail ↔
      ∃ next ∈ scope.volume.names place, scope.Under ⟨place, name :: here.trail⟩ next trail := by
  cases h with
  | directory opens directory entered =>
    constructor
    · rintro ⟨chain, hbelow, rfl⟩
      obtain ⟨_, hfurther⟩ := (Volume.below_directory_iff opens directory).mp hbelow
      obtain ⟨next, rest, rfl, hnext⟩ := hfurther.exists_cons
      exact ⟨next, hnext, rest, hfurther, by simp⟩
    · rintro ⟨next, _, chain, hfurther, rfl⟩
      have hbelow := (Volume.below_directory_iff opens directory).mpr ⟨entered, hfurther⟩
      exact ⟨next :: chain, hbelow, by simp⟩

/-- A walk goes through the names of a directory from the first one on. -/
theorem walk_cons (scope : Scope) (here : Visit) (above : List Visit) (name : Name)
    (others : List Name) :
    scope.walk here above (name :: others) =
      match scope.meet here above name with
      | .error error => .error error
      | .ok .nothing => scope.walk here above others
      | .ok .file => (scope.walk here above others).map ((name :: here.trail) :: ·)
      | .ok (.directory place) =>
        match scope.walk ⟨place, name :: here.trail⟩ (here :: above) (scope.volume.names place) with
        | .error error => .error error
        | .ok inside => (scope.walk here above others).map (inside ++ ·) := by
  rw [walk]
  cases hmet : scope.meet here above name with
  | error error => rfl
  | ok met =>
    cases met with
    | nothing => rfl
    | file => rfl
    | directory place =>
      cases scope.walk ⟨place, name :: here.trail⟩ (here :: above) (scope.volume.names place) with
      | error error => rfl
      | ok inside => rfl

theorem eq_ok_of_map {ε α β : Type} {f : α → β} {result : Except ε α} {b : β}
    (h : result.map f = .ok b) : ∃ a, result = .ok a ∧ f a = b := by
  cases result with
  | error e => cases h
  | ok a => exact ⟨a, rfl, Except.ok.inj h⟩

/-- A walk that ends without an error lists every file below its directory once under each trail
that leads to it, and nothing else. The induction follows the walk: the names of one directory share
its path, so `Stands` is kept, and a subdirectory is entered under a path that leads to it again. -/
theorem walk_exact {names : List Name} {trails : List (List Name)} (hhere : scope.Stands here)
    (hnodup : names.Nodup) (hnames : ∀ name ∈ names, name ∈ scope.volume.names here.place)
    (h : scope.walk here above names = .ok trails) :
    trails.Nodup ∧ ∀ trail, trail ∈ trails ↔ ∃ name ∈ names, scope.Under here name trail := by
  fun_induction Scope.walk scope here above names generalizing trails with
  | case1 here above =>
    cases h
    simp
  | case2 here above name others error hmet => cases h
  | case3 here above name others hmet ih =>
    obtain ⟨hname, hothers⟩ := List.forall_mem_cons.mp hnames
    obtain ⟨hrest, hmem⟩ := ih hhere (List.nodup_cons.mp hnodup).2 hothers h
    refine ⟨hrest, ?_⟩
    intro trail
    have hnothing := under_nothing (meets_of_meet hhere hname hmet) trail
    simp [hmem, hnothing]
  | case4 here above name others hmet ih =>
    obtain ⟨hname, hothers⟩ := List.forall_mem_cons.mp hnames
    obtain ⟨hnew, hnodup⟩ := List.nodup_cons.mp hnodup
    obtain ⟨rest, hwalk, rfl⟩ := eq_ok_of_map h
    obtain ⟨hrest, hmem⟩ := ih hhere hnodup hothers hwalk
    have hfile := under_file (meets_of_meet hhere hname hmet)
    refine ⟨List.nodup_cons.mpr ⟨?_, hrest⟩, ?_⟩
    · intro hm
      obtain ⟨other, hother, hunder⟩ := (hmem _).mp hm
      cases hunder.name_unique ((hfile _).mpr rfl)
      exact hnew hother
    · intro trail
      simp [hmem, hfile]
  | case5 => cases h
  | case6 here above name others place hmet inside hinside ihinside ih =>
    obtain ⟨hname, hothers⟩ := List.forall_mem_cons.mp hnames
    obtain ⟨hnew, hnodup⟩ := List.nodup_cons.mp hnodup
    obtain ⟨rest, hwalk, rfl⟩ := eq_ok_of_map h
    obtain ⟨hrest, hmem⟩ := ih hhere hnodup hothers hwalk
    have hmeets := meets_of_meet hhere hname hmet
    obtain ⟨hin, hmemin⟩ := ihinside (hmeets.stands hhere) (scope.volume.nodup_names place)
      (fun _ hnext => hnext) hinside
    have hdirectory : ∀ trail, trail ∈ inside ↔ scope.Under here name trail := by
      intro trail
      rw [hmemin, under_directory hmeets]
    refine ⟨List.nodup_append.mpr ⟨hin, hrest, ?_⟩, ?_⟩
    · rintro trail hleft _ hright rfl
      obtain ⟨other, hother, hunder⟩ := (hmem _).mp hright
      cases hunder.name_unique ((hdirectory _).mp hleft)
      exact hnew hother
    · intro trail
      simp [hmem, hdirectory]

end Scope

end SheetLint
