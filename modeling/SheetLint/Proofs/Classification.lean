import Mathlib.Data.List.DropRight
import Mathlib.Data.String.Basic
import SheetLint.Role

/-!
# The role and the stem of a path

A path gives its file a role by the directory at its start, or by being the one file at the root
that the role belongs to. The path of that file is cut at its last dot, so it is found for every
extension but those with a dot in them: for these there is no such file. The stem of a path is what
its namespace is made from, and neither depends on the directories.
-/

namespace SheetLint

open Text

namespace Role

variable {path ext : String} {role : Role}

theorem ofPath?_of_component (h : "component/".toList <+: path.toList) :
    ofPath? path ext = some .component :=
  if_pos (isSome_afterStart?_iff.mpr h)

theorem not_component_of_module (h : "module/".toList <+: path.toList) :
    ¬ "component/".toList <+: path.toList := by
  rintro hcomponent
  obtain ⟨rest, hrest⟩ := h
  obtain ⟨rest', hrest'⟩ := hcomponent
  have heq := hrest.trans hrest'.symm
  simp at heq

theorem ofPath?_of_module (h : "module/".toList <+: path.toList) :
    ofPath? path ext = some .module := by
  rw [ofPath?, if_neg (mt isSome_afterStart?_iff.mp (not_component_of_module h)),
    if_pos (isSome_afterStart?_iff.mpr h)]

/-- Outside the two directories the cut at the last dot decides. -/
theorem ofPath?_of_outside (hcomponent : ¬ "component/".toList <+: path.toList)
    (hmodule : ¬ "module/".toList <+: path.toList) :
    ofPath? path ext = some role ↔ path.toList = role.name.toList ++ '.' :: ext.toList ∧
      '.' ∉ ext.toList ∧ role ≠ .component ∧ role ≠ .module := by
  rw [ofPath?, if_neg (mt isSome_afterStart?_iff.mp hcomponent),
    if_neg (mt isSome_afterStart?_iff.mp hmodule)]
  constructor
  · intro h
    split at h
    · next stem back hsplit =>
      split at h
      · next hback =>
        obtain ⟨hpath, hdot⟩ := splitAtLast?_eq_some_iff.mp hsplit
        obtain ⟨rfl, hsingle⟩ := ofStem?_eq_some_iff.mp h
        exact ⟨hback ▸ hpath, hback ▸ hdot, hsingle⟩
      · cases h
    · cases h
  · rintro ⟨hpath, hdot, hsingle⟩
    have hsplit := splitAtLast?_eq_some_iff.mpr ⟨hpath, hdot⟩
    simp only [hsplit, if_true]
    exact ofStem?_eq_some_iff.mpr ⟨rfl, hsingle⟩

/-- The name of a role at the root is not the name of a directory. -/
theorem outside_of_single (hpath : path.toList = role.name.toList ++ '.' :: ext.toList) :
    ¬ "component/".toList <+: path.toList ∧ ¬ "module/".toList <+: path.toList := by
  constructor
  · rintro ⟨rest, hrest⟩
    have heq := hrest.trans hpath
    cases role <;> simp [name] at heq
  · rintro ⟨rest, hrest⟩
    have heq := hrest.trans hpath
    cases role <;> simp [name] at heq

theorem ofPath?_eq_component_iff :
    ofPath? path ext = some .component ↔ "component/".toList <+: path.toList := by
  refine ⟨fun h => ?_, ofPath?_of_component⟩
  by_contra hcomponent
  by_cases hmodule : "module/".toList <+: path.toList
  · rw [ofPath?_of_module hmodule] at h
    cases h
  · exact ((ofPath?_of_outside hcomponent hmodule).mp h).2.2.1 rfl

theorem ofPath?_eq_module_iff :
    ofPath? path ext = some .module ↔ "module/".toList <+: path.toList := by
  refine ⟨fun h => ?_, ofPath?_of_module⟩
  by_contra hmodule
  by_cases hcomponent : "component/".toList <+: path.toList
  · rw [ofPath?_of_component hcomponent] at h
    cases h
  · exact ((ofPath?_of_outside hcomponent hmodule).mp h).2.2.2 rfl

theorem ofPath?_eq_single_iff (hcomponent : role ≠ .component) (hmodule : role ≠ .module) :
    ofPath? path ext = some role ↔
      path.toList = role.name.toList ++ '.' :: ext.toList ∧ '.' ∉ ext.toList := by
  constructor
  · intro h
    have houtside : ¬ "component/".toList <+: path.toList ∧ ¬ "module/".toList <+: path.toList := by
      refine ⟨fun hprefix => hcomponent ?_, fun hprefix => hmodule ?_⟩
      · exact Option.some.inj (h.symm.trans (ofPath?_of_component hprefix))
      · exact Option.some.inj (h.symm.trans (ofPath?_of_module hprefix))
    obtain ⟨hpath, hdot, -⟩ := (ofPath?_of_outside houtside.1 houtside.2).mp h
    exact ⟨hpath, hdot⟩
  · rintro ⟨hpath, hdot⟩
    obtain ⟨hc, hm⟩ := outside_of_single hpath
    exact (ofPath?_of_outside hc hm).mpr ⟨hpath, hdot, hcomponent, hmodule⟩

theorem ofPath?_eq_iff_of_front {front : String} (hcomponent : role ≠ .component)
    (hmodule : role ≠ .module) (hfront : front.toList = role.name.toList ++ ['.']) :
    ofPath? path ext = some role ↔ path = front ++ ext ∧ '.' ∉ ext.toList := by
  rw [ofPath?_eq_single_iff hcomponent hmodule, ← String.toList_inj, String.toList_append, hfront,
    List.append_assoc, List.singleton_append]

/-- The role of every path with every extension. An extension with a dot in it leaves the roles of
the single files without a file. -/
theorem ofPath?_exact (path ext : String) :
    (ofPath? path ext = some .component ↔ "component/".toList <+: path.toList) ∧
    (ofPath? path ext = some .module ↔ "module/".toList <+: path.toList) ∧
    (ofPath? path ext = some .config ↔ path = "config." ++ ext ∧ '.' ∉ ext.toList) ∧
    (ofPath? path ext = some .layout ↔ path = "layout." ++ ext ∧ '.' ∉ ext.toList) ∧
    (ofPath? path ext = some .mixin ↔ path = "mixin." ++ ext ∧ '.' ∉ ext.toList) ∧
    (ofPath? path ext = some .style ↔ path = "style." ++ ext ∧ '.' ∉ ext.toList) ∧
    (ofPath? path ext = none ↔ ¬ "component/".toList <+: path.toList ∧
      ¬ "module/".toList <+: path.toList ∧ ('.' ∈ ext.toList ∨
        path ∉ ["config." ++ ext, "layout." ++ ext, "mixin." ++ ext, "style." ++ ext])) := by
  have hconfig : ofPath? path ext = some .config ↔ path = "config." ++ ext ∧ '.' ∉ ext.toList :=
    ofPath?_eq_iff_of_front (by decide) (by decide) rfl
  have hlayout : ofPath? path ext = some .layout ↔ path = "layout." ++ ext ∧ '.' ∉ ext.toList :=
    ofPath?_eq_iff_of_front (by decide) (by decide) rfl
  have hmixin : ofPath? path ext = some .mixin ↔ path = "mixin." ++ ext ∧ '.' ∉ ext.toList :=
    ofPath?_eq_iff_of_front (by decide) (by decide) rfl
  have hstyle : ofPath? path ext = some .style ↔ path = "style." ++ ext ∧ '.' ∉ ext.toList :=
    ofPath?_eq_iff_of_front (by decide) (by decide) rfl
  refine ⟨ofPath?_eq_component_iff, ofPath?_eq_module_iff, hconfig, hlayout, hmixin, hstyle, ?_⟩
  rw [Option.eq_none_iff_forall_ne_some]
  constructor
  · intro h
    refine ⟨mt ofPath?_eq_component_iff.mpr (h _), mt ofPath?_eq_module_iff.mpr (h _), ?_⟩
    by_cases hdot : '.' ∈ ext.toList
    · exact Or.inl hdot
    · refine Or.inr fun hpath => ?_
      simp only [List.mem_cons, List.not_mem_nil, or_false] at hpath
      rcases hpath with hpath | hpath | hpath | hpath
      · exact h _ (hconfig.mpr ⟨hpath, hdot⟩)
      · exact h _ (hlayout.mpr ⟨hpath, hdot⟩)
      · exact h _ (hmixin.mpr ⟨hpath, hdot⟩)
      · exact h _ (hstyle.mpr ⟨hpath, hdot⟩)
  · rintro ⟨hcomponent, hmodule, hsingle⟩ role h
    have hnone : ∀ single, path = single ∧ '.' ∉ ext.toList →
        single ∉ ["config." ++ ext, "layout." ++ ext, "mixin." ++ ext, "style." ++ ext] := by
      rintro single ⟨rfl, hdot⟩
      exact hsingle.resolve_left hdot
    cases role with
    | component => exact hcomponent (ofPath?_eq_component_iff.mp h)
    | module => exact hmodule (ofPath?_eq_module_iff.mp h)
    | config => exact hnone _ (hconfig.mp h) (by simp)
    | layout => exact hnone _ (hlayout.mp h) (by simp)
    | mixin => exact hnone _ (hmixin.mp h) (by simp)
    | style => exact hnone _ (hstyle.mp h) (by simp)

/-- The namespace of a file is cut off before the whole extension, its role before the last dot. -/
theorem ofPath?_dottedExt :
    let path := "config.min.scss"
    let ext := "min.scss"
    ¬ (ofPath? path ext = some .config ↔ path = "config." ++ ext) ∧ ofPath? path ext = none ∧
      baseName path ext = "config" := by
  intro path ext
  have hnone : ofPath? path ext = none := by decide +kernel
  have hpath : path = "config." ++ ext := by decide +kernel
  refine ⟨fun h => ?_, hnone, by decide +kernel⟩
  rw [h.mpr hpath] at hnone
  cases hnone

end Role

/-- The name of the file at the path, without the extension in use. -/
def fileStem (path ext : String) : List Char :=
  let fileName := afterLast '/' path.toList
  (beforeEnd? ('.' :: ext.toList) fileName).getD fileName

variable {path ext : String}

/-- The underscores in front of a stem are those of a partial. -/
theorem toList_baseName (path ext : String) :
    (baseName path ext).toList = lowercase ((fileStem path ext).dropWhile (· == '_')) := by
  rw [baseName, String.toList_ofList, fileStem]

theorem fileStem_eq_of_afterLast {stem : List Char}
    (h : afterLast '/' path.toList = stem ++ '.' :: ext.toList) : fileStem path ext = stem := by
  rw [fileStem, h, beforeEnd?_eq_some_iff.mpr rfl]
  rfl

theorem slash_not_mem_fileStem (path ext : String) : '/' ∉ fileStem path ext := by
  have hname := not_mem_afterLast '/' path.toList
  rw [fileStem]
  cases hstem : beforeEnd? ('.' :: ext.toList) (afterLast '/' path.toList) with
  | none => exact hname
  | some stem =>
    rw [beforeEnd?_eq_some_iff.mp hstem] at hname
    exact fun hm => hname (List.mem_append_left _ hm)

/-- The name of a file stands behind the last of its directories. -/
theorem afterLast_directories (dirs : List (List Char)) {fileName : List Char}
    (h : '/' ∉ fileName) :
    afterLast '/' ((dirs.flatMap fun dir => dir ++ ['/']) ++ fileName) = fileName := by
  rcases List.eq_nil_or_concat dirs with rfl | ⟨front, dir, rfl⟩
  · rw [List.flatMap_nil, List.nil_append, afterLast, splitAtLast?_eq_none_iff.mpr h]
  · have hsplit : ((front ++ [dir]).flatMap fun dir => dir ++ ['/']) ++ fileName =
        ((front.flatMap fun dir => dir ++ ['/']) ++ dir) ++ '/' :: fileName := by
      simp
    rw [List.concat_eq_append, hsplit, afterLast_append '/' _ h]

/-- It does not matter how many underscores there are. -/
theorem dropWhile_replicate_append (marks : Nat) (stem : List Char) :
    (List.replicate marks '_' ++ stem.dropWhile (· == '_')).dropWhile (· == '_') =
      stem.dropWhile (· == '_') := by
  rw [List.dropWhile_append_of_pos (by simp), List.dropWhile_idempotent]

end SheetLint
