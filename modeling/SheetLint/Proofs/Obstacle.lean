import SheetLint.Proofs.Discovery

/-!
# What ends a walk

A walk ends without an error exactly when there is no obstacle in any directory that it goes into.
An obstacle is a link that cannot be resolved or leads back into a directory that is being walked,
whatever the link's name, or a directory whose path is too long for it to be entered. `Chain` says
which directories a walk could be in, and its inner directories are those that hidden names keep the
walk away from.
-/

namespace SheetLint

open Text

/-- No name on the way from the root to the directory hides it. -/
def Visit.Exposed (visit : Visit) : Prop := ∀ name ∈ visit.trail, ¬ name.Hidden

namespace Scope

variable {scope : Scope} {here : Visit} {above : List Visit} {name : Name} {root : Place}

/-- The directories from one below the root up to the root, innermost first. Each of them is an
entry of the next one, itself or through a link. -/
inductive Chain (scope : Scope) (root : Place) : List Visit → Prop where
  | root : Chain scope root [⟨root, []⟩]
  | enter {here : Visit} {above : List Visit} {name : Name} {place : Place}
      (outer : Chain scope root (here :: above))
      (opens : scope.volume.Opens here.place name place)
      (directory : scope.volume.at? place = some .directory) :
      Chain scope root (⟨place, name :: here.trail⟩ :: here :: above)

/-- The entry `name` of the directory `here` is a link that cannot be resolved, or one that leads to
a directory of the chain. -/
inductive BadLink (scope : Scope) (here : Visit) (above : List Visit) (name : Name) : Prop where
  | lost {path : Path} (found : scope.volume.at? (name :: here.place) = some (.link path))
      (lost : ∀ target,
        ¬ scope.volume.Reaches scope.base (scope.pathOf (name :: here.trail)) target)
  | loop {path : Path} {visit : Visit}
      (found : scope.volume.at? (name :: here.place) = some (.link path))
      (reaches : scope.volume.Reaches scope.base (scope.pathOf (name :: here.trail)) visit.place)
      (walked : visit ∈ here :: above)

/-- What ends a walk at the entry `name` of the directory `here`. -/
inductive Obstacle (scope : Scope) (here : Visit) (above : List Visit) (name : Name) : Prop where
  | link (bad : scope.BadLink here above name)
  | depth {place : Place} (opens : scope.volume.Opens here.place name place)
      (directory : scope.volume.at? place = some .directory) (entered : ¬ name.Hidden)
      (long : Path.maxLength < (scope.pathOf (name :: here.trail)).length)

theorem BadLink.found (h : scope.BadLink here above name) :
    ∃ path, scope.volume.at? (name :: here.place) = some (.link path) := by
  cases h with
  | lost found => exact ⟨_, found⟩
  | loop found => exact ⟨_, found⟩

theorem Obstacle.mem_names (h : scope.Obstacle here above name) :
    name ∈ scope.volume.names here.place := by
  cases h with
  | link bad =>
    obtain ⟨path, found⟩ := bad.found
    exact Volume.mem_names_iff.mpr ⟨_, found⟩
  | depth opens => exact Volume.mem_names_iff.mpr opens.found

theorem target_eq_ok_iff {trail : List Name} {place : Place} :
    scope.target trail = .ok place ↔
      scope.volume.Reaches scope.base (scope.pathOf trail) place :=
  Volume.find_eq_ok_iff

theorem enter_eq_error_iff {place : Place} :
    (∃ error, scope.enter here name place = .error error) ↔
      ¬ name.Hidden ∧ Path.maxLength < (scope.pathOf (name :: here.trail)).length := by
  rw [enter, ← Name.isHidden_iff]
  split
  · next hidden => simp [hidden]
  · next hidden => split <;> simp_all

theorem obstacle_of_meet {error : WalkError} (hhere : scope.Stands here)
    (h : scope.meet here above name = .error error) : scope.Obstacle here above name := by
  rw [meet] at h
  split at h
  · cases h
  · cases h
  · next hdir =>
    obtain ⟨entered, long⟩ := enter_eq_error_iff.mp ⟨error, h⟩
    exact .depth (.itself hdir (by simp)) hdir entered long
  next path found =>
  split at h
  · next cause htarget =>
    refine .link (.lost found fun target hreaches => ?_)
    rw [target_eq_ok_iff.mpr hreaches] at htarget
    cases htarget
  next place htarget =>
  have hreaches := target_eq_ok_iff.mp htarget
  split at h
  · next hdir =>
    split at h
    · next visit hvisit =>
      have hplace : visit.place = place := by simpa using List.find?_some hvisit
      exact .link (.loop found (hplace ▸ hreaches) (List.mem_of_find?_eq_some hvisit))
    · obtain ⟨entered, long⟩ := enter_eq_error_iff.mp ⟨error, h⟩
      have hproper := Volume.proper_of_at? found
      have hleads := (hhere.leads_iff hproper).mp (Volume.leads_of_find htarget).2
      have hopens := Volume.opens_of_leads found hleads
      exact .depth hopens (Volume.isDirectory_iff.mp hdir) entered long
  · cases h

theorem meet_of_badLink (hdirectory : ∀ visit ∈ here :: above,
      scope.volume.at? visit.place = some .directory)
    (h : scope.BadLink here above name) : ∃ error, scope.meet here above name = .error error := by
  cases h with
  | lost found lost =>
    rw [meet, found]
    cases htarget : scope.target (name :: here.trail) with
    | error cause => exact ⟨_, rfl⟩
    | ok target => exact absurd (target_eq_ok_iff.mp htarget) (lost target)
  | @loop _ visit found reaches walked =>
    have hdir := Volume.isDirectory_iff.mpr (hdirectory visit walked)
    rw [meet, found]
    simp only [target_eq_ok_iff.mpr reaches, hdir, if_true]
    cases hfind : (here :: above).find? fun other => other.place = visit.place with
    | some other => exact ⟨_, rfl⟩
    | none => exact absurd (List.find?_eq_none.mp hfind visit walked) (by simp)

theorem short_of_meet {place : Place} (h : scope.meet here above name = .ok (.directory place)) :
    (scope.pathOf (name :: here.trail)).length ≤ Path.maxLength := by
  have hshort : ∀ other, scope.enter here name other = .ok (.directory place) →
      (scope.pathOf (name :: here.trail)).length ≤ Path.maxLength := by
    intro other hother
    rw [enter] at hother
    split at hother
    · cases hother
    split at hother
    · cases hother
    next hlong => exact Nat.not_lt.mp hlong
  rw [meet] at h
  split at h
  · cases h
  · cases h
  · exact hshort _ h
  split at h
  · cases h
  split at h
  · split at h
    · cases h
    · exact hshort _ h
  · cases h

theorem Meets.eq_directory {met : Met} {place : Place} (h : scope.Meets here name met)
    (opens : scope.volume.Opens here.place name place)
    (directory : scope.volume.at? place = some .directory) (entered : ¬ name.Hidden) :
    met = .directory place := by
  cases h with
  | hidden _ _ hidden => exact absurd hidden entered
  | file opens' regular =>
    cases opens.unique opens'
    rw [directory] at regular
    cases regular
  | directory opens' => rw [opens.unique opens']

/-- One entry ends a walk exactly when it is an obstacle. -/
theorem meet_eq_error_iff (hhere : scope.Stands here)
    (hdirectory : ∀ visit ∈ here :: above, scope.volume.at? visit.place = some .directory) :
    (∃ error, scope.meet here above name = .error error) ↔ scope.Obstacle here above name := by
  constructor
  · rintro ⟨error, h⟩
    exact obstacle_of_meet hhere h
  · intro h
    cases h with
    | link bad => exact meet_of_badLink hdirectory bad
    | @depth place opens directory entered long =>
      cases hmet : scope.meet here above name with
      | error error => exact ⟨error, rfl⟩
      | ok met =>
        have hmeets := meets_of_meet hhere (Volume.mem_names_iff.mpr opens.found) hmet
        cases hmeets.eq_directory opens directory entered
        exact absurd (short_of_meet hmet) (Nat.not_le.mpr long)

theorem Chain.stands {chain : List Visit} (h : scope.Chain root chain)
    (hroot : scope.Stands ⟨root, []⟩) : ∀ visit ∈ chain, scope.Stands visit := by
  induction h with
  | root => simpa using hroot
  | enter _ opens directory ih =>
    intro visit hvisit
    rcases List.mem_cons.mp hvisit with rfl | hvisit
    · exact (ih _ List.mem_cons_self).enter opens directory
    · exact ih visit hvisit

/-- What a walk meets under any of its names, it goes through to the end if there is no error. -/
theorem met_of_walk {names : List Name} {trails : List (List Name)}
    (h : scope.walk here above names = .ok trails) (hname : name ∈ names) :
    ∃ met, scope.meet here above name = .ok met ∧ ∀ place, met = .directory place →
      ∃ inside, scope.walk ⟨place, name :: here.trail⟩ (here :: above)
        (scope.volume.names place) = .ok inside := by
  induction names generalizing trails with
  | nil => simp at hname
  | cons first others ih =>
    rw [walk_cons] at h
    have hothers : (∃ met, scope.meet here above first = .ok met ∧ ∀ place,
        met = .directory place → ∃ inside, scope.walk ⟨place, first :: here.trail⟩
          (here :: above) (scope.volume.names place) = .ok inside) ∧
        ∃ rest, scope.walk here above others = .ok rest := by
      split at h
      · cases h
      · next hmet => exact ⟨⟨_, hmet, by simp⟩, _, h⟩
      · next hmet =>
        obtain ⟨rest, hrest, -⟩ := eq_ok_of_map h
        exact ⟨⟨_, hmet, by simp⟩, rest, hrest⟩
      · next place hmet =>
        split at h
        · cases h
        next inside hinside =>
        obtain ⟨rest, hrest, -⟩ := eq_ok_of_map h
        refine ⟨⟨_, hmet, ?_⟩, rest, hrest⟩
        rintro place' hplace
        cases hplace
        exact ⟨inside, hinside⟩
    rcases List.mem_cons.mp hname with rfl | hname
    · exact hothers.1
    · obtain ⟨rest, hrest⟩ := hothers.2
      exact ih hrest hname

/-- A walk without an error goes into every directory that no name hides. -/
theorem walk_of_chain {chain : List Visit} (hroot : scope.Stands ⟨root, []⟩)
    {trails : List (List Name)}
    (hwalk : scope.walk ⟨root, []⟩ [] (scope.volume.names root) = .ok trails)
    (h : scope.Chain root chain) {here : Visit} {above : List Visit}
    (hchain : chain = here :: above) (hexposed : here.Exposed) :
    ∃ inside, scope.walk here above (scope.volume.names here.place) = .ok inside := by
  induction h generalizing here above with
  | root =>
    cases hchain
    exact ⟨trails, hwalk⟩
  | @enter outer around name place houter opens directory ih =>
    cases hchain
    obtain ⟨entered, houterExposed⟩ := List.forall_mem_cons.mp hexposed
    obtain ⟨_, hinside⟩ := ih rfl houterExposed
    have hname := Volume.mem_names_iff.mpr opens.found
    obtain ⟨met, hmet, hnext⟩ := met_of_walk hinside hname
    have hmeets := meets_of_meet (houter.stands hroot _ List.mem_cons_self) hname hmet
    exact hnext place (hmeets.eq_directory opens directory entered)

theorem eq_error_of_map {ε α β : Type} {f : α → β} {result : Except ε α} {error : ε}
    (h : result.map f = .error error) : result = .error error := by
  cases result with
  | error e => exact congrArg Except.error (Except.error.inj h)
  | ok a => cases h

/-- A walk that ends with an error has met an obstacle in a directory that no name hides. The
induction follows the walk, and the directories that it is in are a chain. -/
theorem exists_obstacle_of_walk {names : List Name} {error : WalkError}
    (hroot : scope.Stands ⟨root, []⟩) (hchain : scope.Chain root (here :: above))
    (hexposed : here.Exposed) (hnames : ∀ name ∈ names, name ∈ scope.volume.names here.place)
    (h : scope.walk here above names = .error error) :
    ∃ here above name, scope.Chain root (here :: above) ∧ here.Exposed ∧
      scope.Obstacle here above name := by
  fun_induction Scope.walk scope here above names with
  | case1 => cases h
  | case2 here above name others found hmet =>
    exact ⟨here, above, name, hchain, hexposed,
      obstacle_of_meet (hchain.stands hroot _ List.mem_cons_self) hmet⟩
  | case3 here above name others hmet ih =>
    exact ih hchain hexposed (List.forall_mem_cons.mp hnames).2 h
  | case4 here above name others hmet ih =>
    exact ih hchain hexposed (List.forall_mem_cons.mp hnames).2 (eq_error_of_map h)
  | case5 here above name others place hmet inside hinside ih =>
    obtain ⟨hname, -⟩ := List.forall_mem_cons.mp hnames
    cases meets_of_meet (hchain.stands hroot _ List.mem_cons_self) hname hmet with
    | directory opens directory entered =>
      exact ih (.enter hchain opens directory) (List.forall_mem_cons.mpr ⟨entered, hexposed⟩)
        (fun _ hnext => hnext) (hinside.trans h)
  | case6 here above name others place hmet inside hinside ihinside ih =>
    exact ih hchain hexposed (List.forall_mem_cons.mp hnames).2 (eq_error_of_map h)

/-- There is an obstacle in a directory that no name hides. -/
def Obstructed (scope : Scope) (root : Place) : Prop :=
  ∃ here above name, scope.Chain root (here :: above) ∧ here.Exposed ∧
    scope.Obstacle here above name

section Root

variable (hroot : scope.volume.Reaches scope.base scope.root root)
  (hdirectory : scope.volume.at? root = some .directory)

include hroot hdirectory

theorem stands_of_reaches : scope.Stands ⟨root, []⟩ := by
  obtain ⟨hne, -, -, links, -, hleads⟩ := hroot
  exact ⟨hdirectory, hne, hleads.leads⟩

theorem files_eq_walk : scope.files = scope.walk ⟨root, []⟩ [] (scope.volume.names root) := by
  have htarget : scope.target [] = .ok root := target_eq_ok_iff.mpr hroot
  rw [files, htarget]
  exact if_pos (Volume.isDirectory_iff.mpr hdirectory)

theorem files_eq_error_iff : (∃ error, scope.files = .error error) ↔ scope.Obstructed root := by
  have hstands := stands_of_reaches hroot hdirectory
  rw [files_eq_walk hroot hdirectory]
  constructor
  · rintro ⟨error, h⟩
    exact exists_obstacle_of_walk hstands .root (by simp [Visit.Exposed]) (fun _ hm => hm) h
  · rintro ⟨here, above, name, hchain, hexposed, hobstacle⟩
    cases hwalk : scope.walk ⟨root, []⟩ [] (scope.volume.names root) with
    | error error => exact ⟨error, rfl⟩
    | ok trails =>
      obtain ⟨inside, hinside⟩ := walk_of_chain hstands hwalk hchain rfl hexposed
      have hvisits := hchain.stands hstands
      obtain ⟨error, hmet⟩ := (meet_eq_error_iff (hvisits _ List.mem_cons_self)
        fun visit hvisit => (hvisits visit hvisit).directory).mpr hobstacle
      have hname : name ∈ scope.volume.names here.place := hobstacle.mem_names
      obtain ⟨met, hmet', -⟩ := met_of_walk hinside hname
      rw [hmet] at hmet'
      cases hmet'

theorem paths_eq_error_iff (ext : String) :
    (∃ error, (scope.source ext).paths = .error (.discovery error)) ↔ scope.Obstructed root := by
  rw [← files_eq_error_iff hroot hdirectory]
  cases hfiles : scope.files with
  | error error => simp [source, stylesheets, hfiles, Except.map]
  | ok trails => simp [source, stylesheets, hfiles, Except.map]

/-- A run from a directory is the run of its source. -/
theorem run_eq_run (ext : String) :
    (⟨scope.root, ext⟩ : Config).run scope.volume scope.base =
      (scope.source ext).run ⟨scope.root, ext⟩ := by
  have htarget : scope.target [] = .ok root := target_eq_ok_iff.mpr hroot
  have hcheck : scope.checkRoot = .ok () := by
    rw [checkRoot, htarget]
    exact if_pos (Volume.isDirectory_iff.mpr hdirectory)
  simp only [Config.run, hcheck]

end Root

/-- Discovery fails exactly when there is an obstacle where the walk goes, and lists the files
otherwise. Obstacles inside hidden directories alone never make it fail. A run fails with it. -/
theorem discovery_fails_iff (scope : Scope) (ext : String) {root : Place}
    (hroot : scope.volume.Reaches scope.base scope.root root)
    (hdirectory : scope.volume.at? root = some .directory) :
    ((∃ error, (scope.source ext).paths = .error (.discovery error)) ↔ scope.Obstructed root) ∧
    ((∃ listed, (scope.source ext).paths = .ok listed) ↔ ¬ scope.Obstructed root) ∧
    ((∀ here above name, scope.Chain root (here :: above) → scope.Obstacle here above name →
        ∃ hidden ∈ here.trail, hidden.Hidden) →
      ∃ listed, (scope.source ext).paths = .ok listed) ∧
    ∀ error, (scope.source ext).paths = .error error →
      (⟨scope.root, ext⟩ : Config).run scope.volume scope.base = .error error := by
  have hfails := paths_eq_error_iff hroot hdirectory ext
  have hlists : (∃ listed, (scope.source ext).paths = .ok listed) ↔ ¬ scope.Obstructed root := by
    rw [← hfails]
    cases hsheets : scope.stylesheets ext with
    | error error => simp [source, hsheets]
    | ok listed => simp [source, hsheets]
  refine ⟨hfails, hlists, ?_, ?_⟩
  · intro hhidden
    refine hlists.mpr ?_
    rintro ⟨here, above, name, hchain, hexposed, hobstacle⟩
    obtain ⟨hidden, hmem, hname⟩ := hhidden here above name hchain hobstacle
    exact hexposed hidden hmem hname
  · intro error herror
    rw [run_eq_run hroot hdirectory, Source.run, herror]
    rfl

/-- A hidden directory with a link that leads nowhere, and a link with a hidden name that leads to
the directory it is in. -/
def loopedSite : Volume where
  entries :=
    [([bytesOf "site"], .directory), ([bytesOf ".old", bytesOf "site"], .directory),
      ([bytesOf "dead.css", bytesOf ".old", bytesOf "site"], .link (bytesOf "nowhere")),
      ([bytesOf ".again", bytesOf "site"], .link (bytesOf "."))]
  distinct := by decide +kernel
  placed := Volume.placed_of_forall (by decide +kernel)

theorem discovery_fails_of_loopedSite :
    let scope : Scope := ⟨loopedSite, [], bytesOf "site"⟩
    scope.volume.Reaches scope.base scope.root [bytesOf "site"] ∧
    scope.volume.at? [bytesOf "site"] = some .directory ∧
    (∃ error, (scope.source "css").paths = .error (.discovery error)) ∧
    ∃ error, Config.run ⟨scope.root, "css"⟩ loopedSite [] = .error error := by
  intro scope
  have hroot : scope.volume.Reaches scope.base scope.root [bytesOf "site"] :=
    ⟨by decide, by decide, by decide, 0, by decide, .down rfl (by simp) .done⟩
  have hdirectory : scope.volume.at? [bytesOf "site"] = some .directory := rfl
  have hagain : scope.volume.Reaches scope.base (scope.pathOf [bytesOf ".again"])
      [bytesOf "site"] :=
    ⟨by decide, by decide, by decide, 1, by decide,
      .down rfl (by simp) (.through rfl (.stay rfl (Or.inr rfl) .done) .done)⟩
  have hobstacle : scope.Obstacle ⟨[bytesOf "site"], []⟩ [] (bytesOf ".again") :=
    .link (.loop rfl hagain List.mem_cons_self)
  obtain ⟨hfails, -, -, hrun⟩ := discovery_fails_iff scope "css" hroot hdirectory
  obtain ⟨error, herror⟩ :=
    hfails.mpr ⟨_, _, _, .root, by simp [Visit.Exposed], hobstacle⟩
  exact ⟨hroot, hdirectory, ⟨error, herror⟩, _, hrun _ herror⟩

/-- The longest path of the directory `d` that can be looked up. -/
def longRoot : Path := bytesOf "d" ++ List.replicate 4094 Path.slash

theorem length_longRoot : longRoot.length = Path.maxLength := by
  rw [longRoot, List.length_append, List.length_replicate]
  rfl

theorem reaches_d {v : Volume} (h : v.at? [bytesOf "d"] = some .directory) :
    v.Reaches [] (bytesOf "d") [bytesOf "d"] :=
  ⟨by decide, by decide, by decide, 0, by decide, .down h (by simp) .done⟩

theorem reaches_longRoot {v : Volume} (h : v.at? [bytesOf "d"] = some .directory) :
    v.Reaches [] longRoot [bytesOf "d"] :=
  (reaches_d h).append_slashes h 4094 (Nat.le_of_eq length_longRoot)

/-- Behind the longest path there is no place for a name. -/
theorem long_of_longRoot {name : Name} (hname : name.Proper) :
    Path.maxLength < (longRoot.join name).length := by
  have hle := Volume.length_le_join longRoot hname
  have hpos := List.length_pos_iff.mpr hname.nonempty
  rw [length_longRoot] at hle
  omega

/-- A directory in a directory, and no link. -/
def nested : Volume where
  entries := [([bytesOf "d"], .directory), ([bytesOf "e", bytesOf "d"], .directory)]
  distinct := by decide +kernel
  placed := Volume.placed_of_forall (by decide +kernel)

/-- Links are not the only obstacle. Under the longest path of its root that can be looked up, a
walk cannot enter any directory, and fails where there is no link at all. -/
theorem discovery_fails_without_links :
    let scope : Scope := ⟨nested, [], longRoot⟩
    scope.volume.Reaches scope.base scope.root [bytesOf "d"] ∧
    scope.volume.at? [bytesOf "d"] = some .directory ∧
    ¬ ((∃ error, (scope.source "css").paths = .error (.discovery error)) ↔
      ∃ here above name, scope.Chain [bytesOf "d"] (here :: above) ∧ here.Exposed ∧
        scope.BadLink here above name) := by
  intro scope
  have hdirectory : scope.volume.at? [bytesOf "d"] = some .directory := rfl
  have hroot : scope.volume.Reaches scope.base scope.root [bytesOf "d"] :=
    reaches_longRoot hdirectory
  have hentered : ¬ Name.Hidden (bytesOf "e") := by decide
  have hstart : scope.pathOf [] = longRoot := rfl
  have hlong : Path.maxLength < (scope.pathOf [bytesOf "e"]).length := by
    rw [pathOf_cons, hstart]
    exact long_of_longRoot (by decide)
  have hobstacle : scope.Obstacle ⟨[bytesOf "d"], []⟩ [] (bytesOf "e") :=
    .depth (.itself rfl (by simp)) rfl hentered hlong
  refine ⟨hroot, hdirectory, fun hlinks => ?_⟩
  obtain ⟨here, above, name, -, -, hbad⟩ := hlinks.mp
    ((paths_eq_error_iff hroot hdirectory "css").mpr
      ⟨_, _, _, .root, by simp [Visit.Exposed], hobstacle⟩)
  obtain ⟨path, found⟩ := hbad.found
  have hentry := Volume.at?_cons_eq_some_iff.mp found
  simp [scope, nested] at hentry

end Scope

end SheetLint
