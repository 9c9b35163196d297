import Mathlib.Data.Set.Card
import SheetLint.Proofs.Obstacle

/-!
# Every walk ends

A walk enters a directory through a link only if it is not in it already, and enters a directory's
own subdirectories without asking, so it can come into a directory again inside itself. A chain of
entered directories is cut where it comes to a directory that is new to it. There are no more such
pieces than directories, and along one piece the chain only goes down in the volume, so a piece is
no longer than the number of directories either. `Ends` says how a walk ends by what it meets, step
by step and without a bound.
-/

namespace SheetLint

open Text

namespace Volume

variable {v : Volume} {places : List Place}

/-- How many directories there are. -/
noncomputable def directoryCount (v : Volume) : Nat := {place | v.at? place = some .directory}.ncard

theorem length_le_directoryCount (hnodup : places.Nodup)
    (h : ∀ place ∈ places, v.at? place = some .directory) : places.length ≤ v.directoryCount := by
  have hfinite : {place | v.at? place = some .directory}.Finite :=
    v.directories.finite_toSet.subset fun _ hplace => mem_directories_iff.mpr hplace
  rw [directoryCount, ← List.toFinset_card_of_nodup hnodup, ← Set.ncard_coe_finset]
  refine Set.ncard_le_ncard (fun place hplace => ?_) hfinite
  exact h place (by simpa using hplace)

end Volume

namespace Scope

variable {scope : Scope} {root place : Place} {here : Visit} {above chain : List Visit}
  {name : Name} {names : List Name} {fresh piece : List Place}
  {result : Except WalkError (List (List Name))}

/-- The directories that a walk from the root is in, innermost first. Each of them is entered from
the next one. -/
inductive Walked (scope : Scope) (root : Place) : List Visit → Prop where
  | root : Walked scope root [⟨root, []⟩]
  | enter {here : Visit} {above : List Visit} {name : Name} {place : Place}
      (outer : Walked scope root (here :: above))
      (met : scope.meet here above name = .ok (.directory place)) :
      Walked scope root (⟨place, name :: here.trail⟩ :: here :: above)

theorem Walked.directory (h : scope.Walked root chain)
    (hroot : scope.volume.at? root = some .directory) :
    ∀ visit ∈ chain, scope.volume.at? visit.place = some .directory := by
  induction h with
  | root => simpa using hroot
  | enter _ met ih => exact List.forall_mem_cons.mpr ⟨(directory_of_meet met).1, ih⟩

theorem Walked.length_trail (h : scope.Walked root (here :: above)) :
    here.trail.length = above.length := by
  generalize hchain : here :: above = chain at h
  induction h generalizing here above with
  | root =>
    cases hchain
    rfl
  | enter _ _ ih =>
    cases hchain
    simp [ih rfl]

/-- A link is not followed into a directory that is being walked. -/
theorem not_walked_of_link {path : Path}
    (found : scope.volume.at? (name :: here.place) = some (.link path))
    (h : scope.meet here above name = .ok (.directory place)) :
    ∀ visit ∈ here :: above, visit.place ≠ place := by
  rcases (directory_of_meet h).2 with rfl | hnew
  · rw [(directory_of_meet h).1] at found
    cases found
  · exact hnew

/-- A subdirectory is entered whatever is being walked. -/
theorem meet_subdirectory
    (found : scope.volume.at? (name :: here.place) = some .directory) (hentered : ¬ name.Hidden)
    (hshort : (scope.pathOf (name :: here.trail)).length ≤ Path.maxLength) :
    scope.meet here above name = .ok (.directory (name :: here.place)) := by
  rw [← Name.isHidden_iff] at hentered
  rw [meet, found]
  simp only [enter, if_neg hentered, if_neg (Nat.not_lt.mpr hshort)]

/-- An account of a chain that ends at `here`: the directories that were new to it when it came to
them, and those it went down through since it came to the last of these. -/
structure Account (scope : Scope) (chain : List Visit) (here : Visit) (fresh piece : List Place) :
    Prop where
  fresh_nodup : fresh.Nodup
  fresh_walked : ∀ place ∈ fresh, ∃ visit ∈ chain, visit.place = place
  piece_nodup : piece.Nodup
  piece_directory : ∀ place ∈ piece, scope.volume.at? place = some .directory
  piece_above : ∀ place ∈ piece, place.length ≤ here.place.length
  length_le : chain.length + scope.volume.directoryCount ≤
    fresh.length * scope.volume.directoryCount + piece.length

theorem Account.start (hroot : scope.volume.at? root = some .directory) :
    scope.Account [⟨root, []⟩] ⟨root, []⟩ [root] [root] where
  fresh_nodup := by simp
  fresh_walked := by simp
  piece_nodup := by simp
  piece_directory := by simpa using hroot
  piece_above := by simp
  length_le := by simp [Nat.add_comm]

/-- Going down to a subdirectory makes the piece longer. -/
theorem Account.down (h : scope.Account (here :: above) here fresh piece)
    (hdirectory : scope.volume.at? (name :: here.place) = some .directory) :
    scope.Account (⟨name :: here.place, name :: here.trail⟩ :: here :: above)
      ⟨name :: here.place, name :: here.trail⟩ fresh ((name :: here.place) :: piece) where
  fresh_nodup := h.fresh_nodup
  fresh_walked place hplace :=
    (h.fresh_walked place hplace).imp fun _ hvisit => ⟨List.mem_cons_of_mem _ hvisit.1, hvisit.2⟩
  piece_nodup := by
    refine List.nodup_cons.mpr ⟨fun hmem => ?_, h.piece_nodup⟩
    have habove := h.piece_above _ hmem
    simp at habove
  piece_directory := List.forall_mem_cons.mpr ⟨hdirectory, h.piece_directory⟩
  piece_above := by
    refine List.forall_mem_cons.mpr ⟨Nat.le_refl _, fun place hplace => ?_⟩
    exact Nat.le_succ_of_le (h.piece_above place hplace)
  length_le := by
    have hle := h.length_le
    simp only [List.length_cons] at hle ⊢
    omega

/-- Coming to a directory that is new to the chain begins another piece. -/
theorem Account.jump (h : scope.Account (here :: above) here fresh piece)
    (hdirectory : scope.volume.at? place = some .directory)
    (hnew : ∀ visit ∈ here :: above, visit.place ≠ place) :
    scope.Account (⟨place, name :: here.trail⟩ :: here :: above) ⟨place, name :: here.trail⟩
      (place :: fresh) [place] where
  fresh_nodup := by
    refine List.nodup_cons.mpr ⟨fun hmem => ?_, h.fresh_nodup⟩
    obtain ⟨visit, hvisit, hplace⟩ := h.fresh_walked place hmem
    exact hnew visit hvisit hplace
  fresh_walked := by
    refine List.forall_mem_cons.mpr ⟨⟨_, List.mem_cons_self, rfl⟩, fun place hplace => ?_⟩
    obtain ⟨visit, hvisit, rfl⟩ := h.fresh_walked place hplace
    exact ⟨visit, List.mem_cons_of_mem _ hvisit, rfl⟩
  piece_nodup := by simp
  piece_directory := by simpa using hdirectory
  piece_above := by simp
  length_le := by
    have hle := h.length_le
    have hpiece := Volume.length_le_directoryCount h.piece_nodup h.piece_directory
    simp only [List.length_cons, List.length_nil, Nat.succ_mul] at hle ⊢
    omega

/-- The induction follows the chain: a directory that is entered is a subdirectory of the last one
or is new to the chain. -/
theorem Walked.exists_account (h : scope.Walked root (here :: above))
    (hroot : scope.volume.at? root = some .directory) :
    ∃ fresh piece, scope.Account (here :: above) here fresh piece := by
  generalize hchain : here :: above = chain at h
  induction h generalizing here above with
  | root =>
    cases hchain
    exact ⟨_, _, .start hroot⟩
  | enter _ met ih =>
    cases hchain
    obtain ⟨fresh, piece, haccount⟩ := ih rfl
    obtain ⟨hdirectory, rfl | hnew⟩ := directory_of_meet met
    · exact ⟨_, _, haccount.down hdirectory⟩
    · exact ⟨_, _, haccount.jump hdirectory hnew⟩

theorem Walked.length_le (h : scope.Walked root chain)
    (hroot : scope.volume.at? root = some .directory) :
    chain.length ≤ scope.volume.directoryCount * scope.volume.directoryCount := by
  obtain ⟨here, above, rfl⟩ : ∃ here above, chain = here :: above := by
    cases h <;> exact ⟨_, _, rfl⟩
  obtain ⟨fresh, piece, haccount⟩ := h.exists_account hroot
  have hfresh : fresh.length ≤ scope.volume.directoryCount := by
    refine Volume.length_le_directoryCount haccount.fresh_nodup fun place hplace => ?_
    obtain ⟨visit, hvisit, rfl⟩ := haccount.fresh_walked place hplace
    exact h.directory hroot visit hvisit
  have hpiece := Volume.length_le_directoryCount haccount.piece_nodup haccount.piece_directory
  have hle := haccount.length_le
  have hmul := Nat.mul_le_mul_right scope.volume.directoryCount hfresh
  omega

/-- The walk through the names of the directory `here` ends with the result. -/
inductive Ends (scope : Scope) :
    Visit → List Visit → List Name → Except WalkError (List (List Name)) → Prop where
  | done {here : Visit} {above : List Visit} : Ends scope here above [] (.ok [])
  | stopped {here : Visit} {above : List Visit} {name : Name} {others : List Name}
      {error : WalkError} (met : scope.meet here above name = .error error) :
      Ends scope here above (name :: others) (.error error)
  | passed {here : Visit} {above : List Visit} {name : Name} {others : List Name}
      {result : Except WalkError (List (List Name))}
      (met : scope.meet here above name = .ok .nothing)
      (further : Ends scope here above others result) :
      Ends scope here above (name :: others) result
  | listed {here : Visit} {above : List Visit} {name : Name} {others : List Name}
      {result : Except WalkError (List (List Name))}
      (met : scope.meet here above name = .ok .file)
      (further : Ends scope here above others result) :
      Ends scope here above (name :: others) (result.map ((name :: here.trail) :: ·))
  | lost {here : Visit} {above : List Visit} {name : Name} {others : List Name} {place : Place}
      {error : WalkError} (met : scope.meet here above name = .ok (.directory place))
      (inside : Ends scope ⟨place, name :: here.trail⟩ (here :: above) (scope.volume.names place)
        (.error error)) :
      Ends scope here above (name :: others) (.error error)
  | entered {here : Visit} {above : List Visit} {name : Name} {others : List Name} {place : Place}
      {trails : List (List Name)} {result : Except WalkError (List (List Name))}
      (met : scope.meet here above name = .ok (.directory place))
      (inside : Ends scope ⟨place, name :: here.trail⟩ (here :: above) (scope.volume.names place)
        (.ok trails))
      (further : Ends scope here above others result) :
      Ends scope here above (name :: others) (result.map (trails ++ ·))

theorem ends_walk (scope : Scope) (here : Visit) (above : List Visit) (names : List Name) :
    scope.Ends here above names (scope.walk here above names) := by
  fun_induction Scope.walk scope here above names with
  | case1 => exact .done
  | case2 here above name others error met => exact .stopped met
  | case3 here above name others met ih => exact .passed met ih
  | case4 here above name others met ih => exact .listed met ih
  | case5 here above name others place met error hinside ih => exact .lost met (hinside ▸ ih)
  | case6 here above name others place met trails hinside ihinside ih =>
    exact .entered met (hinside ▸ ihinside) ih

theorem Ends.eq_walk (h : scope.Ends here above names result) :
    result = scope.walk here above names := by
  induction h with
  | done => rw [walk]
  | stopped met => rw [walk_cons, met]
  | passed met _ ih => rw [walk_cons, met, ih]
  | listed met _ ih => rw [walk_cons, met, ih]
  | lost met _ ih => simp only [walk_cons, met, ← ih]
  | entered met _ _ ihinside ih => simp only [walk_cons, met, ← ihinside, ih]

/-- The result of a walk comes from where it was: what it lists it met in a directory it entered,
and so with the error that ends it. -/
theorem Ends.met (h : scope.Ends here above names result)
    (hwalked : scope.Walked root (here :: above)) :
    (∀ trails, result = .ok trails → ∀ trail ∈ trails, ∃ here above name,
      scope.Walked root (here :: above) ∧ scope.meet here above name = .ok .file ∧
        trail = name :: here.trail) ∧
    (∀ error, result = .error error → ∃ here above name,
      scope.Walked root (here :: above) ∧ scope.meet here above name = .error error) := by
  induction h with
  | done =>
    constructor
    · rintro trails ⟨⟩ trail hm
      simp at hm
    · rintro error ⟨⟩
  | stopped met =>
    constructor
    · rintro trails ⟨⟩
    · rintro error ⟨⟩
      exact ⟨_, _, _, hwalked, met⟩
  | passed met _ ih => exact ih hwalked
  | listed met _ ih =>
    obtain ⟨hok, herror⟩ := ih hwalked
    constructor
    · intro trails hmap
      obtain ⟨rest, hrest, rfl⟩ := eq_ok_of_map hmap
      exact List.forall_mem_cons.mpr ⟨⟨_, _, _, hwalked, met, rfl⟩, hok rest hrest⟩
    · intro error hmap
      exact herror error (eq_error_of_map hmap)
  | lost met _ ih => exact ⟨by rintro trails ⟨⟩, (ih (.enter hwalked met)).2⟩
  | entered met _ _ ihinside ih =>
    obtain ⟨hok, herror⟩ := ih hwalked
    constructor
    · intro trails hmap
      obtain ⟨rest, hrest, rfl⟩ := eq_ok_of_map hmap
      refine List.forall_mem_append.mpr ⟨?_, hok rest hrest⟩
      exact (ihinside (.enter hwalked met)).1 _ rfl
    · intro error hmap
      exact herror error (eq_error_of_map hmap)

/-- A directory with a link to the directory around it. -/
def climbingSite : Volume where
  entries :=
    [([bytesOf "site"], .directory), ([bytesOf "theme", bytesOf "site"], .directory),
      ([bytesOf "up", bytesOf "theme", bytesOf "site"], .link (bytesOf ".."))]
  distinct := by decide +kernel
  placed := Volume.placed_of_forall (by decide +kernel)

/-- Behind the link, the directory that holds it is the subdirectory of another one. -/
theorem walked_climbingSite :
    (⟨climbingSite, [], bytesOf "site/theme"⟩ : Scope).Walked [bytesOf "theme", bytesOf "site"]
      [⟨[bytesOf "theme", bytesOf "site"], [bytesOf "theme", bytesOf "up"]⟩,
        ⟨[bytesOf "site"], [bytesOf "up"]⟩, ⟨[bytesOf "theme", bytesOf "site"], []⟩] :=
  .enter (.enter .root (by decide +kernel)) (by decide +kernel)

theorem reaches_climbingSite :
    climbingSite.Reaches [] (bytesOf "site/theme") [bytesOf "theme", bytesOf "site"] :=
  ⟨by decide, by decide, by decide, 0, by decide, .down rfl (by simp) (.down rfl (by simp) .done)⟩

/-- Every walk of a directory ends, with the files it met or with an error it met. No link is
followed into a directory that is being walked. A subdirectory is entered whatever is being walked,
and can be walked again inside itself. Still no chain of directories is longer than the square of
their number. -/
theorem walk_ends :
    (∀ (scope : Scope) (root : Place), scope.volume.Reaches scope.base scope.root root →
      scope.volume.at? root = some .directory →
      (∀ here above name path place, scope.Walked root (here :: above) →
        scope.volume.at? (name :: here.place) = some (.link path) →
        scope.meet here above name = .ok (.directory place) →
        ∀ visit ∈ here :: above, visit.place ≠ place) ∧
      (∀ here above name, scope.Walked root (here :: above) →
        scope.volume.at? (name :: here.place) = some .directory → ¬ name.Hidden →
        (scope.pathOf (name :: here.trail)).length ≤ Path.maxLength →
        scope.Walked root (⟨name :: here.place, name :: here.trail⟩ :: here :: above)) ∧
      (∀ chain, scope.Walked root chain →
        chain.length ≤ scope.volume.directoryCount * scope.volume.directoryCount) ∧
      (∃! result, scope.Ends ⟨root, []⟩ [] (scope.volume.names root) result) ∧
      scope.Ends ⟨root, []⟩ [] (scope.volume.names root) scope.files ∧
      (∀ trails, scope.files = .ok trails → ∀ trail ∈ trails, ∃ here above name,
        scope.Walked root (here :: above) ∧ scope.meet here above name = .ok .file ∧
          trail = name :: here.trail ∧ trail.length = (here :: above).length) ∧
      ∀ error, scope.files = .error error → ∃ here above name,
        scope.Walked root (here :: above) ∧ scope.meet here above name = .error error) ∧
    ∃ (scope : Scope) (root : Place) (here : Visit) (above : List Visit),
      scope.volume.Reaches scope.base scope.root root ∧
      scope.volume.at? root = some .directory ∧ scope.Walked root (here :: above) ∧
      ∃ visit ∈ above, visit.place = here.place := by
  constructor
  · intro scope root hroot hdirectory
    have hends : scope.Ends ⟨root, []⟩ [] (scope.volume.names root) scope.files :=
      files_eq_walk hroot hdirectory ▸ ends_walk scope _ _ _
    obtain ⟨hok, herror⟩ := hends.met .root
    refine ⟨fun here above name path place _ found met => not_walked_of_link found met,
      fun here above name hwalked found hentered hshort =>
        .enter hwalked (meet_subdirectory found hentered hshort),
      fun chain hwalked => hwalked.length_le hdirectory,
      ⟨_, hends, fun result h => h.eq_walk.trans hends.eq_walk.symm⟩, hends, ?_, herror⟩
    intro trails htrails trail hmem
    obtain ⟨here, above, name, hwalked, hmet, rfl⟩ := hok trails htrails trail hmem
    exact ⟨here, above, name, hwalked, hmet, rfl, by simp [hwalked.length_trail]⟩
  · exact ⟨_, _, _, _, reaches_climbingSite, rfl, walked_climbingSite, _,
      List.mem_cons_of_mem _ List.mem_cons_self, rfl⟩

theorem walk_ends_climbingSite :
    let scope : Scope := ⟨climbingSite, [], bytesOf "site/theme"⟩
    let theme : Place := [bytesOf "theme", bytesOf "site"]
    scope.volume.Reaches scope.base scope.root theme ∧
    scope.volume.at? theme = some .directory ∧
    3 ≤ scope.volume.directoryCount * scope.volume.directoryCount ∧
    (∃! result, scope.Ends ⟨theme, []⟩ [] (scope.volume.names theme) result) ∧
    scope.files =
      .error (.loop (bytesOf "site/theme/up/theme/up") (bytesOf "site/theme/up")) := by
  intro scope theme
  obtain ⟨-, -, hlength, honce, hends, -⟩ := walk_ends.1 scope theme reaches_climbingSite rfl
  refine ⟨reaches_climbingSite, rfl, hlength _ walked_climbingSite, honce, ?_⟩
  have htheme : scope.volume.names theme = [bytesOf "up"] := by decide +kernel
  have hsite : scope.volume.names [bytesOf "site"] = [bytesOf "theme"] := by decide +kernel
  have hup : scope.meet ⟨theme, []⟩ [] (bytesOf "up") = .ok (.directory [bytesOf "site"]) := by
    decide +kernel
  have hdown : scope.meet ⟨[bytesOf "site"], [bytesOf "up"]⟩ [⟨theme, []⟩] (bytesOf "theme") =
      .ok (.directory theme) := by
    decide +kernel
  have hloop : scope.meet ⟨theme, [bytesOf "theme", bytesOf "up"]⟩
      [⟨[bytesOf "site"], [bytesOf "up"]⟩, ⟨theme, []⟩] (bytesOf "up") =
        .error (.loop (bytesOf "site/theme/up/theme/up") (bytesOf "site/theme/up")) := by
    decide +kernel
  refine honce.unique hends ?_
  rw [htheme]
  refine .lost hup ?_
  rw [hsite]
  refine .lost hdown ?_
  rw [htheme]
  exact .stopped hloop

end Scope

end SheetLint
