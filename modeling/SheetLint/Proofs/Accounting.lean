import Mathlib.Data.List.Sort
import Mathlib.Data.String.Basic
import SheetLint.Linter

/-!
# What a run reports

A run reads its paths in the order in which the source names them, and a path can be named more than
once. The invariant below ties the report to the paths that have been read so far: the two counts,
the skipped files in their order, and the findings by path. One file keeps it, so a run does.
-/

namespace SheetLint

namespace Source

variable {source : Source} {ext : String}

/-- The file at `path` has a role and loads. -/
def opens (source : Source) (ext path : String) : Bool :=
  (Role.ofPath? path ext).isSome && (source.load path).isOk

/-- What is said of the file at `path` if it has a role and does not load. -/
def skippedFile? (source : Source) (ext path : String) : Option SkippedFile :=
  match Role.ofPath? path ext, source.load path with
  | some _, .error failure => some ⟨path, failure.message⟩
  | _, _ => none

/-- The file at `path` has a role and loads, and its content has exactly these violations. -/
def Finds (source : Source) (ext path : String) (violations : List Violation) : Prop :=
  ∃ role content, Role.ofPath? path ext = some role ∧ source.load path = .ok content ∧
    lintContent content role (baseName path ext) = violations

/-- The report says of the files of `done` what there is to say, and of no other file. -/
structure Accounts (source : Source) (ext : String) (done : List String) (report : Report) :
    Prop where
  linted : report.linted = done.countP (source.opens ext)
  skipped : report.skipped = done.filterMap (source.skippedFile? ext)
  files : ∀ path violations, report.files.find? path = some violations ↔
    path ∈ done ∧ source.Finds ext path violations ∧ violations ≠ []

theorem finds_unique {path : String} {first second : List Violation}
    (h₁ : source.Finds ext path first) (h₂ : source.Finds ext path second) : first = second := by
  obtain ⟨role, content, hrole, hload, rfl⟩ := h₁
  obtain ⟨role', content', hrole', hload', rfl⟩ := h₂
  have hr : role = role' := Option.some.inj (hrole.symm.trans hrole')
  have hc : content = content' := Except.ok.inj (hload.symm.trans hload')
  rw [hr, hc]

theorem finds_iff_of_load {path content : String} (hload : source.load path = .ok content)
    {violations : List Violation} : source.Finds ext path violations ↔
      ∃ role, Role.ofPath? path ext = some role ∧
        lintContent content role (baseName path ext) = violations := by
  constructor
  · rintro ⟨role, content', hrole, hload', hlint⟩
    cases hload.symm.trans hload'
    exact ⟨role, hrole, hlint⟩
  · rintro ⟨role, hrole, hlint⟩
    exact ⟨role, content, hrole, hload, hlint⟩

theorem load_of_skippedFile? {path : String} {file : SkippedFile}
    (h : source.skippedFile? ext path = some file) :
    file.path = path ∧ ∃ failure, source.load path = .error failure := by
  rw [skippedFile?] at h
  split at h
  · next failure _ hload =>
    cases h
    exact ⟨rfl, failure, hload⟩
  · cases h

/-- A file with a role either opens or is skipped. -/
theorem countP_opens_add_skipped (source : Source) (ext : String) (paths : List String) :
    paths.countP (source.opens ext) + (paths.filterMap (source.skippedFile? ext)).length =
      paths.countP fun path => (Role.ofPath? path ext).isSome := by
  induction paths with
  | nil => rfl
  | cons path paths ih =>
    cases hrole : Role.ofPath? path ext with
    | none => simpa [opens, skippedFile?, hrole] using ih
    | some role =>
      cases hload : source.load path with
      | error failure =>
        have hs : source.skippedFile? ext path = some ⟨path, failure.message⟩ := by
          simp [skippedFile?, hrole, hload]
        have ho : source.opens ext path = false := by
          simp [opens, hload, Except.isOk, Except.toBool]
        simp only [List.countP_cons, List.filterMap_cons, hs, ho, hrole, List.length_cons,
          Option.isSome_some, ite_true, Bool.false_eq_true, ite_false]
        omega
      | ok content =>
        have hs : source.skippedFile? ext path = none := by simp [skippedFile?, hrole, hload]
        have ho : source.opens ext path = true := by
          simp [opens, hrole, hload, Except.isOk, Except.toBool]
        simp only [List.countP_cons, List.filterMap_cons, hs, ho, hrole, Option.isSome_some,
          ite_true]
        omega

theorem accounts_start (source : Source) (ext : String) (discovered : Nat) :
    source.Accounts ext [] (.start discovered) where
  linted := rfl
  skipped := rfl
  files := by simp [Report.start, Findings.empty, Findings.find?]

/-- A file that finds nothing leaves the findings as they are. -/
theorem files_iff_of_quiet {done : List String} {report : Report}
    (h : source.Accounts ext done report) {last : String}
    (quiet : ∀ violations, source.Finds ext last violations → violations = []) (path : String)
    (violations : List Violation) :
    report.files.find? path = some violations ↔
      path ∈ done ++ [last] ∧ source.Finds ext path violations ∧ violations ≠ [] := by
  rw [h.files path violations]
  constructor
  · rintro ⟨hmem, hfinds⟩
    exact ⟨List.mem_append_left _ hmem, hfinds⟩
  · rintro ⟨hmem, hfinds, hne⟩
    rcases List.mem_append.mp hmem with hmem | hmem
    · exact ⟨hmem, hfinds, hne⟩
    · cases List.mem_singleton.mp hmem
      exact absurd (quiet violations hfinds) hne

/-- A file with violations takes its place in the findings, under its own path only. -/
theorem files_iff_of_finds {done : List String} {report : Report}
    (h : source.Accounts ext done report) {last : String} {found : List Violation}
    (hfound : source.Finds ext last found) (hne : found ≠ []) (path : String)
    (violations : List Violation) :
    (report.files.insert last found).find? path = some violations ↔
      path ∈ done ++ [last] ∧ source.Finds ext path violations ∧ violations ≠ [] := by
  rw [Findings.find?_insert]
  by_cases hp : path = last
  · subst hp
    simp only [ite_true, Option.some.injEq]
    constructor
    · rintro rfl
      exact ⟨by simp, hfound, hne⟩
    · rintro ⟨_, hfinds, _⟩
      exact finds_unique hfound hfinds
  · rw [if_neg hp, h.files path violations]
    simp [hp]

/-- The next file keeps the account. -/
theorem Accounts.add {done : List String} {report : Report}
    (h : source.Accounts ext done report) (path : String) :
    source.Accounts ext (done ++ [path]) (report.add (path, source.outcome ext path)) := by
  cases hrole : Role.ofPath? path ext with
  | none =>
    have quiet : ∀ violations, source.Finds ext path violations → violations = [] := by
      rintro violations ⟨role, _, hr, _⟩
      rw [hrole] at hr
      cases hr
    have ho : source.outcome ext path = .withoutRole := by simp [outcome, hrole]
    rw [ho]
    refine ⟨?_, ?_, files_iff_of_quiet h quiet⟩
    · simpa [Report.add, opens, hrole] using h.linted
    · simpa [Report.add, skippedFile?, hrole] using h.skipped
  | some role =>
    cases hload : source.load path with
    | error failure =>
      have quiet : ∀ violations, source.Finds ext path violations → violations = [] := by
        rintro violations ⟨_, content, _, hl, _⟩
        rw [hload] at hl
        cases hl
      have ho : source.outcome ext path = .unreadable failure := by simp [outcome, hrole, hload]
      rw [ho]
      refine ⟨?_, ?_, files_iff_of_quiet h quiet⟩
      · simpa [Report.add, Report.skip, opens, hload, Except.isOk, Except.toBool] using h.linted
      · simp [Report.add, Report.skip, skippedFile?, hrole, hload, h.skipped]
    | ok content =>
      have found : source.Finds ext path (lintContent content role (baseName path ext)) :=
        ⟨role, content, hrole, hload, rfl⟩
      have ho : source.outcome ext path =
          .linted (lintContent content role (baseName path ext)) := by
        simp [outcome, hrole, hload, Stylesheet.lint, Stylesheet.ofContent]
      rw [ho]
      refine ⟨?_, ?_, ?_⟩
      · simp [Report.add, Report.record, opens, hrole, hload, Except.isOk, Except.toBool, h.linted]
      · simp [Report.add, Report.record, skippedFile?, hrole, hload, h.skipped]
      · by_cases hne : lintContent content role (baseName path ext) = []
        · have quiet : ∀ violations, source.Finds ext path violations → violations = [] :=
            fun violations hv => (finds_unique hv found).trans hne
          simpa only [Report.add, Report.record, hne, ite_true] using files_iff_of_quiet h quiet
        · simpa only [Report.add, Report.record, if_neg hne] using files_iff_of_finds h found hne

@[simp] theorem discovered_add (report : Report) (entry : String × Outcome) :
    (report.add entry).discovered = report.discovered := by
  obtain ⟨path, outcome⟩ := entry
  cases outcome <;> rfl

theorem discovered_foldl_add (report : Report) (outcomes : List (String × Outcome)) :
    (outcomes.foldl Report.add report).discovered = report.discovered := by
  induction outcomes generalizing report with
  | nil => rfl
  | cons entry outcomes ih => rw [List.foldl_cons, ih, discovered_add]

theorem Accounts.foldl {done : List String} {report : Report}
    (h : source.Accounts ext done report) (paths : List String) :
    source.Accounts ext (done ++ paths) ((source.outcomes ext paths).foldl Report.add report) := by
  induction paths generalizing done report with
  | nil => simpa [outcomes] using h
  | cons path paths ih => simpa [outcomes] using ih (h.add path)

theorem accounts_ofOutcomes (source : Source) (ext : String) (paths : List String) :
    source.Accounts ext paths (.ofOutcomes (source.outcomes ext paths)) := by
  simpa [Report.ofOutcomes] using
    (accounts_start source ext (source.outcomes ext paths).length).foldl paths

theorem discovered_ofOutcomes (source : Source) (ext : String) (paths : List String) :
    (Report.ofOutcomes (source.outcomes ext paths)).discovered = paths.length := by
  simp [Report.ofOutcomes, discovered_foldl_add, Report.start, outcomes]

end Source

namespace Findings

/-- The paths of all findings, in their order. -/
def paths (findings : Findings) : List String := findings.entries.map Prod.fst

theorem paths_sorted (findings : Findings) : findings.paths.Pairwise (· < ·) :=
  List.pairwise_map.mpr findings.sorted

theorem exists_find?_of_mem_paths {findings : Findings} {path : String}
    (h : path ∈ findings.paths) : ∃ violations, findings.find? path = some violations := by
  obtain ⟨⟨key, violations⟩, hmem, rfl⟩ := List.mem_map.mp h
  exact ⟨violations, mem_entries_iff.mp hmem⟩

end Findings

/-- The findings of strictly sorted paths stand in the order of the paths. -/
theorem Source.Accounts.paths_sublist {source : Source} {ext : String} {done : List String}
    {report : Report} (h : source.Accounts ext done report) (sorted : done.Pairwise (· < ·)) :
    report.files.paths.Sublist done := by
  have hnodup : report.files.paths.Nodup := report.files.paths_sorted.imp ne_of_lt
  have hsub : report.files.paths ⊆ done := by
    intro path hmem
    obtain ⟨violations, hfind⟩ := Findings.exists_find?_of_mem_paths hmem
    exact ((h.files path violations).mp hfind).1
  exact List.sublist_of_subperm_of_pairwise (List.subperm_of_subset hnodup hsub)
    report.files.paths_sorted sorted

namespace Source

theorem run_of_paths {source : Source} {paths : List String} (h : source.paths = .ok paths)
    (config : Config) : source.run config = .ok
      { report := .ofOutcomes (source.outcomes config.ext paths)
        log := Event.ofOutcomes config.root (source.outcomes config.ext paths) } := by
  simp [run, h, Except.map]

/-- A run fails as its source does. Otherwise its report has each path in its place: under the
linted files, under the skipped ones, or under those without a role. -/
theorem run_report (source : Source) (config : Config) :
    (∀ error, source.paths = .error error → source.run config = .error error) ∧
      ∀ paths, source.paths = .ok paths → ∃ run, source.run config = .ok run ∧
        run.report.discovered = paths.length ∧
        run.report.linted = paths.countP (source.opens config.ext) ∧
        run.report.skipped = paths.filterMap (source.skippedFile? config.ext) ∧
        (∀ path violations, run.report.files.find? path = some violations ↔
          path ∈ paths ∧ source.Finds config.ext path violations ∧ violations ≠ []) ∧
        run.report.linted + run.report.skipped.length =
          paths.countP (fun path => (Role.ofPath? path config.ext).isSome) ∧
        run.report.linted + run.report.skipped.length ≤ run.report.discovered ∧
        run.report.discovered - (run.report.linted + run.report.skipped.length) =
          paths.countP (fun path => (Role.ofPath? path config.ext).isNone) ∧
        (paths.Pairwise (· < ·) → (run.report.files.entries.map Prod.fst).Sublist paths) := by
  constructor
  · intro error hpaths
    simp [run, hpaths, Except.map]
  · intro paths hpaths
    have account := accounts_ofOutcomes source config.ext paths
    have hd := discovered_ofOutcomes source config.ext paths
    have hroles := countP_opens_add_skipped source config.ext paths
    rw [← account.linted, ← account.skipped] at hroles
    have hall := List.length_eq_countP_add_countP
      (fun path => (Role.ofPath? path config.ext).isSome) (l := paths)
    have hrest : paths.countP (fun path => (Role.ofPath? path config.ext).isNone) =
        paths.countP fun path => ¬ (Role.ofPath? path config.ext).isSome = true :=
      List.countP_congr fun path _ => by simp
    refine ⟨_, run_of_paths hpaths config, hd, account.linted, account.skipped, account.files,
      hroles, ?_, ?_, account.paths_sublist⟩
    · rw [hroles, hd]
      exact List.countP_le_length
    · rw [hroles, hd, hrest]
      omega

/-- A clean file, a file that is gone, a file without a role, and a file with a variable out of
place. -/
def fourFiles : Source where
  paths := .ok ["config.scss", "module/gone.scss", "notes.scss", "style.scss"]
  load path :=
    if path = "module/gone.scss" then .error .unlisted
    else if path = "style.scss" then .ok "\n$x: 1;"
    else .ok "$red: 1;"

theorem run_report_fourFiles : ∃ run, fourFiles.run (.ofRoot []) = .ok run ∧
    run.report.discovered = 4 ∧ run.report.linted = 2 ∧
    run.report.skipped = [⟨"module/gone.scss", "entity not found"⟩] ∧
    run.report.files.find? "style.scss" = some [⟨2, "define in Config instead"⟩] ∧
    run.report.files.find? "config.scss" = none ∧
    (run.report.files.entries.map Prod.fst).Sublist
      ["config.scss", "module/gone.scss", "notes.scss", "style.scss"] := by
  obtain ⟨run, hrun, hd, hl, hs, hf, -, -, -, hsub⟩ :=
    (run_report fourFiles (.ofRoot [])).2 _ rfl
  refine ⟨run, hrun, hd, hl.trans (by decide +kernel), hs.trans (by decide +kernel), ?_, ?_,
    hsub (by decide +kernel)⟩
  · exact (hf _ _).mpr ⟨by decide +kernel, ⟨.style, "\n$x: 1;", by decide +kernel, rfl,
      by decide +kernel⟩, by decide⟩
  · cases hc : run.report.files.find? "config.scss" with
    | none => rfl
    | some violations =>
      obtain ⟨_, hfinds, hne⟩ := (hf _ _).mp hc
      have clean : fourFiles.Finds "scss" "config.scss" [] :=
        ⟨.config, "$red: 1;", by decide +kernel, rfl, by decide +kernel⟩
      exact absurd (finds_unique hfinds clean) hne

end Source

end SheetLint
