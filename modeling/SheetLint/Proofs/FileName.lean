import SheetLint.Proofs.Classification
import SheetLint.Proofs.Discovery
import SheetLint.Proofs.Text.Lowercase

/-!
# The names of the listed files

A file is listed for its extension, which is cut off the bytes of its name. Its role and its
namespace are found by cutting the path that is shown for it. On the listed paths the three cuts
are at the same dot, since a dot is read from nothing but its own byte and is shown as it is.
-/

namespace SheetLint

open Text

variable {path ext : String} {stem : List Char}

theorem slash_not_mem_baseName (path ext : String) : '/' ∉ (baseName path ext).toList := by
  have hlow : Low '/' := ⟨by decide, by decide⟩
  rw [toList_baseName]
  intro hm
  have hstem := (List.dropWhile_sublist _).subset (mem_of_mem_lowercase hlow hm)
  exact slash_not_mem_fileStem path ext hstem

theorem head?_baseName_ne (path ext : String) : (baseName path ext).toList.head? ≠ some '_' := by
  have hlow : Low '_' := ⟨by decide, by decide⟩
  rw [toList_baseName]
  intro hhead
  have hstem := head?_of_head?_lowercase hlow hhead
  have hdrop := List.head?_dropWhile_not (fun c => c == '_') (fileStem path ext)
  rw [hstem] at hdrop
  exact absurd hdrop (by decide)

/-- Neither the directories nor the number of underscores of a partial matter. -/
theorem baseName_directories (hstem : fileStem path ext = stem)
    (hslash : '/' ∉ stem ++ '.' :: ext.toList) (dirs : List (List Char)) (marks : Nat) :
    baseName (String.ofList ((dirs.flatMap fun dir => dir ++ ['/']) ++
      (List.replicate marks '_' ++ stem.dropWhile (· == '_') ++ '.' :: ext.toList))) ext =
        baseName path ext := by
  have hname : '/' ∉ List.replicate marks '_' ++ stem.dropWhile (· == '_') ++ '.' :: ext.toList := by
    simp only [List.mem_append, not_or] at hslash ⊢
    refine ⟨⟨?_, fun hm => hslash.1 ((List.dropWhile_sublist _).subset hm)⟩, hslash.2⟩
    intro hm
    exact absurd (List.eq_of_mem_replicate hm) (by decide)
  have hlast := afterLast_directories dirs hname
  have hother : fileStem (String.ofList ((dirs.flatMap fun dir => dir ++ ['/']) ++
      (List.replicate marks '_' ++ stem.dropWhile (· == '_') ++ '.' :: ext.toList))) ext =
        List.replicate marks '_' ++ stem.dropWhile (· == '_') :=
    fileStem_eq_of_afterLast (by rw [String.toList_ofList, hlast])
  rw [← String.toList_inj, toList_baseName, toList_baseName, hother, hstem,
    dropWhile_replicate_append]

/-- At the root the role goes by the stem, for an extension that a file can have. -/
theorem ofPath?_root_iff (hslash : '/' ∉ path.toList) (hdot : '.' ∉ ext.toList)
    (hpath : path.toList = stem ++ '.' :: ext.toList) {role : Role} :
    Role.ofPath? path ext = some role ↔
      role ∈ [Role.config, .layout, .mixin, .style] ∧ stem = role.name.toList := by
  constructor
  · intro h
    have hcomponent : role ≠ .component := by
      rintro rfl
      exact hslash ((Role.ofPath?_eq_component_iff.mp h).subset (by decide))
    have hmodule : role ≠ .module := by
      rintro rfl
      exact hslash ((Role.ofPath?_eq_module_iff.mp h).subset (by decide))
    obtain ⟨hname, -⟩ := (Role.ofPath?_eq_single_iff hcomponent hmodule).mp h
    rw [hpath] at hname
    refine ⟨?_, List.append_cancel_right hname⟩
    cases role <;> simp_all
  · rintro ⟨hrole, rfl⟩
    have hcomponent : role ≠ .component := by
      rintro rfl
      exact absurd hrole (by decide)
    have hmodule : role ≠ .module := by
      rintro rfl
      exact absurd hrole (by decide)
    exact (Role.ofPath?_eq_single_iff hcomponent hmodule).mpr ⟨hpath, hdot⟩

theorem dot_not_mem_of_bytes {cs : List Char} (h : Name.dot ∉ encode cs) : '.' ∉ cs := by
  intro hm
  refine h (List.mem_flatMap.mpr ⟨'.', hm, ?_⟩)
  decide

/-- What is shown of a name with an extension ends in the extension. -/
theorem decodeLossy_extension (front : Bytes) (ext : List Char) :
    decodeLossy (front ++ Name.dot :: encode ext) = decodeLossy front ++ '.' :: ext := by
  have hdot : Name.dot.toNat < 0x80 := by decide
  rw [decodeLossy_append_ascii hdot, decodeLossy_encode]
  rfl

namespace Scope

/-- The names of a listed file show its stem and its extension. -/
theorem exists_stem_of_isStylesheet {v : Volume} {root : Place} {chain : List Name}
    (h : v.IsStylesheet root (bytesOf ext) chain) :
    ∃ stem, stem ≠ [] ∧ '.' ∉ ext.toList ∧ '/' ∉ stem ++ '.' :: ext.toList ∧
      (split '/' (Path.render chain).toList).getLast? = some (stem ++ '.' :: ext.toList) := by
  obtain ⟨hbelow, front, name, rfl, bytes, hne, rfl, hdot⟩ := h
  have hshown := decodeLossy_extension bytes ext.toList
  have hproper := hbelow.proper (bytes ++ Name.dot :: bytesOf ext) (by simp)
  refine ⟨decodeLossy bytes, decodeLossy_ne_nil hne, dot_not_mem_of_bytes hdot, ?_, ?_⟩
  · rw [← hshown]
    exact Path.not_mem_decodeLossy hproper
  · rw [Path.split_render hbelow.names.1 hbelow.proper, List.map_append, List.map_singleton,
      List.getLast?_concat, ← hshown, bytesOf]

/-- Every listed path ends in a stem, a dot and the extension. The namespace is the stem without its
underscores, in lower case, wherever the file lies, and a file at the root has a role exactly when
its stem is the name of a role that belongs to a single file. -/
theorem stylesheets_fileName (scope : Scope) (ext : String) {root : Place} {listed : List String}
    (hroot : scope.volume.Leads (Volume.origin scope.base scope.root) (Path.names scope.root) root)
    (hdirectory : scope.volume.at? root = some .directory)
    (h : scope.stylesheets ext = .ok listed) :
    ∀ path ∈ listed, ∃ stem : List Char, stem ≠ [] ∧
      (split '/' path.toList).getLast? = some (stem ++ '.' :: ext.toList) ∧
      (baseName path ext).toList = lowercase (stem.dropWhile (· == '_')) ∧
      '/' ∉ (baseName path ext).toList ∧ (baseName path ext).toList.head? ≠ some '_' ∧
      (∀ (dirs : List (List Char)) (marks : Nat),
        baseName (String.ofList ((dirs.flatMap fun dir => dir ++ ['/']) ++
          (List.replicate marks '_' ++ stem.dropWhile (· == '_') ++ '.' :: ext.toList))) ext =
            baseName path ext) ∧
      ('/' ∉ path.toList → ∀ role, Role.ofPath? path ext = some role ↔
        role ∈ [Role.config, .layout, .mixin, .style] ∧ stem = role.name.toList) := by
  intro path hpath
  obtain ⟨chains, -, hmem, hperm⟩ := stylesheets_perm hroot hdirectory h
  obtain ⟨chain, hchain, rfl⟩ := List.mem_map.mp (hperm.mem_iff.mp hpath)
  obtain ⟨stem, hne, hdot, hslash, hlast⟩ := exists_stem_of_isStylesheet ((hmem chain).mp hchain)
  have hname := Option.some.inj ((getLast?_split _ _).symm.trans hlast)
  have hstem := fileStem_eq_of_afterLast hname
  refine ⟨stem, hne, hlast, by rw [toList_baseName, hstem], slash_not_mem_baseName _ _,
    head?_baseName_ne _ _, baseName_directories hstem hslash, ?_⟩
  intro hroot
  rw [split_of_not_mem hroot, List.getLast?_singleton, Option.some.injEq] at hlast
  exact fun role => ofPath?_root_iff hroot hdot hlast

/-- A file of a role at the root, and a partial in a directory. -/
def partialSite : Volume where
  entries :=
    [([bytesOf "site"], .directory), ([bytesOf "component", bytesOf "site"], .directory),
      ([bytesOf "__Größe.scss", bytesOf "component", bytesOf "site"], .file []),
      ([bytesOf "layout.scss", bytesOf "site"], .file [])]
  distinct := by decide +kernel
  placed := Volume.placed_of_forall (by decide +kernel)

theorem stylesheets_fileName_partialSite :
    let scope : Scope := ⟨partialSite, [], bytesOf "site"⟩
    scope.stylesheets "scss" = .ok ["component/__Größe.scss", "layout.scss"] ∧
    baseName "component/__Größe.scss" "scss" = "größe" ∧
    baseName "component/__Größe.scss" "scss" = baseName "module/de/_Größe.scss" "scss" ∧
    Role.ofPath? "layout.scss" "scss" = some .layout := by
  intro scope
  have htarget : scope.target [] = .ok [bytesOf "site"] := rfl
  have hdirectory : scope.volume.isDirectory [bytesOf "site"] = true := rfl
  have hsite : scope.volume.names [bytesOf "site"] = [bytesOf "component", bytesOf "layout.scss"] := by
    decide +kernel
  have hcomponent : scope.volume.names [bytesOf "component", bytesOf "site"] =
      [bytesOf "__Größe.scss"] := by
    decide +kernel
  have hinside : scope.meet ⟨[bytesOf "site"], []⟩ [] (bytesOf "component") =
      .ok (.directory [bytesOf "component", bytesOf "site"]) := rfl
  have hlayout : scope.meet ⟨[bytesOf "site"], []⟩ [] (bytesOf "layout.scss") = .ok .file := rfl
  have hpartial : scope.meet ⟨[bytesOf "component", bytesOf "site"], [bytesOf "component"]⟩
      [⟨[bytesOf "site"], []⟩] (bytesOf "__Größe.scss") = .ok .file := rfl
  have hfiles : scope.files = .ok [[bytesOf "__Größe.scss", bytesOf "component"],
      [bytesOf "layout.scss"]] := by
    simp only [files, htarget, hdirectory, if_true, hsite, hcomponent, walk_cons, hinside, hlayout,
      hpartial, walk]
    rfl
  have hlisted : scope.stylesheets "scss" = .ok ["component/__Größe.scss", "layout.scss"] :=
    stylesheets_of_files hfiles (by decide +kernel) (by decide +kernel)
  have hroot : scope.volume.Leads (Volume.origin scope.base scope.root) (Path.names scope.root)
      [bytesOf "site"] := .down rfl (by simp) .done
  have hname := stylesheets_fileName scope "scss" hroot (Volume.isDirectory_iff.mp hdirectory)
    hlisted
  obtain ⟨stem, -, hlast, hspace, -, -, hsame, -⟩ := hname "component/__Größe.scss" (by simp)
  obtain ⟨single, -, hlast', -, -, -, -, hrole⟩ := hname "layout.scss" (by simp)
  have hstem : stem = "__Größe".toList := by
    have hparts : (split '/' "component/__Größe.scss".toList).getLast? =
        some ("__Größe".toList ++ '.' :: "scss".toList) := by
      decide +kernel
    exact List.append_cancel_right (Option.some.inj (hlast.symm.trans hparts))
  have hsingle : single = "layout".toList := by
    have hparts : (split '/' "layout.scss".toList).getLast? =
        some ("layout".toList ++ '.' :: "scss".toList) := by
      decide +kernel
    exact List.append_cancel_right (Option.some.inj (hlast'.symm.trans hparts))
  subst hstem hsingle
  refine ⟨hlisted, ?_, ?_, (hrole (by decide +kernel) .layout).mpr ⟨by decide, rfl⟩⟩
  · rw [← String.toList_inj, hspace]
    decide +kernel
  · rw [← hsame ["module".toList, "de".toList] 1]
    congr 1

end Scope

end SheetLint
