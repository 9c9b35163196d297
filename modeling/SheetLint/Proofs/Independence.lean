import SheetLint.Proofs.Accounting

/-!
# What one file has to do with the others

A report is fixed by the paths that were read and by what each of them loads as. The order of the
paths is only left in the list of the skipped files, and a file that loads as something else changes
what is said under its own path and the two counts.
-/

namespace SheetLint

/-- Findings that say the same under every path are the same. -/
theorem Findings.eq_of_find? {findings others : Findings}
    (h : ∀ path, findings.find? path = others.find? path) : findings = others := by
  have hnodup : ∀ findings : Findings, findings.entries.Nodup := by
    intro findings
    refine findings.sorted.imp ?_
    rintro entry _ hlt rfl
    exact String.lt_irrefl entry.1 hlt
  have hmem : ∀ entry, entry ∈ findings.entries ↔ entry ∈ others.entries := by
    rintro ⟨path, violations⟩
    rw [mem_entries_iff, mem_entries_iff, h]
  have hperm : findings.entries.Perm others.entries :=
    (List.perm_ext_iff_of_nodup (hnodup findings) (hnodup others)).mpr hmem
  have hentries : findings.entries = others.entries :=
    hperm.eq_of_pairwise
      (fun a b _ _ hab hba => absurd (String.lt_trans hab hba) (String.lt_irrefl a.1))
      findings.sorted others.sorted
  cases findings
  cases others
  cases hentries
  rfl

namespace Source

variable {source other : Source} {ext path : String}

section Load

variable (hload : source.load path = other.load path)

include hload

theorem opens_congr : source.opens ext path = other.opens ext path := by
  simp only [opens, hload]

theorem skippedFile?_congr : source.skippedFile? ext path = other.skippedFile? ext path := by
  simp only [skippedFile?, hload]

theorem finds_congr {violations : List Violation} :
    source.Finds ext path violations ↔ other.Finds ext path violations := by
  simp only [Finds, hload]

theorem outcome_congr : source.outcome ext path = other.outcome ext path := by
  simp only [outcome, hload]

/-- What is found under a path is a matter of that path being read and of what it loads as. -/
theorem Accounts.find?_congr {done otherDone : List String} {report otherReport : Report}
    (h : source.Accounts ext done report) (h' : other.Accounts ext otherDone otherReport)
    (hmem : path ∈ done ↔ path ∈ otherDone) :
    report.files.find? path = otherReport.files.find? path := by
  apply Option.ext
  intro violations
  rw [h.files, h'.files, hmem, finds_congr hload]

end Load

theorem outcome_of_role_none (h : Role.ofPath? path ext = none) (source : Source) :
    source.outcome ext path = .withoutRole := by
  simp only [outcome, h]

theorem Accounts.files_eq {done otherDone : List String} {report otherReport : Report}
    (h : source.Accounts ext done report) (h' : other.Accounts ext otherDone otherReport)
    (hload : source.load = other.load) (hperm : done.Perm otherDone) :
    report.files = otherReport.files :=
  Findings.eq_of_find? fun path => h.find?_congr (congrFun hload path) h' hperm.mem_iff

theorem Accounts.linted_eq {done otherDone : List String} {report otherReport : Report}
    (h : source.Accounts ext done report) (h' : other.Accounts ext otherDone otherReport)
    (hload : source.load = other.load) (hperm : done.Perm otherDone) :
    report.linted = otherReport.linted := by
  have hopens : source.opens ext = other.opens ext :=
    funext fun path => opens_congr (congrFun hload path)
  rw [h.linted, h'.linted, hopens]
  exact hperm.countP_eq _

theorem Accounts.skipped_perm {done otherDone : List String} {report otherReport : Report}
    (h : source.Accounts ext done report) (h' : other.Accounts ext otherDone otherReport)
    (hload : source.load = other.load) (hperm : done.Perm otherDone) :
    report.skipped.Perm otherReport.skipped := by
  have hskipped : source.skippedFile? ext = other.skippedFile? ext :=
    funext fun path => skippedFile?_congr (congrFun hload path)
  rw [h.skipped, h'.skipped, hskipped]
  exact hperm.filterMap _

theorem Accounts.errorsFor_eq {done : List String} {report otherReport : Report}
    (h : source.Accounts ext done report) (h' : other.Accounts ext done otherReport)
    (hload : source.load path = other.load path) :
    report.errorsFor path = otherReport.errorsFor path := by
  rw [Report.errorsFor, Report.errorsFor, h.find?_congr hload h' Iff.rfl]

theorem Accounts.skipped_filter_eq {done : List String} {report otherReport : Report}
    (h : source.Accounts ext done report) (h' : other.Accounts ext done otherReport)
    (hload : ∀ next, next ≠ path → source.load next = other.load next) :
    report.skipped.filter (fun file => file.path ≠ path) =
      otherReport.skipped.filter fun file => file.path ≠ path := by
  have hself : ∀ source : Source,
      (source.skippedFile? ext path).filter (fun file => file.path ≠ path) = none := by
    intro source
    refine Option.filter_eq_none_iff.mpr fun file hfile => ?_
    simp [(load_of_skippedFile? hfile).1]
  rw [h.skipped, h'.skipped, List.filter_filterMap, List.filter_filterMap]
  refine List.filterMap_congr fun next _ => ?_
  by_cases hnext : next = path
  · -- A skipped file stands under its own path, so this one is filtered out of both lists.
    subst hnext
    rw [hself, hself]
  · rw [skippedFile?_congr (hload next hnext)]

theorem outcomes_congr {paths : List String}
    (h : ∀ path, source.outcome ext path = other.outcome ext path) :
    source.outcomes ext paths = other.outcomes ext paths := by
  simp only [outcomes, h]

/-- Two runs over the same contents agree up to the order of the skipped files if they read the same
paths in any two orders. Two runs over the same list of paths whose contents are the same but for
one path agree on all that is said of other paths, and on everything if that path has no role. -/
theorem run_independent (config : Config) {source other : Source} {paths otherPaths : List String}
    (h : source.paths = .ok paths) (h' : other.paths = .ok otherPaths) :
    ∃ run otherRun, source.run config = .ok run ∧ other.run config = .ok otherRun ∧
      (source.load = other.load → paths.Perm otherPaths →
        run.report.files = otherRun.report.files ∧
        run.report.discovered = otherRun.report.discovered ∧
        run.report.linted = otherRun.report.linted ∧
        run.report.summary = otherRun.report.summary ∧
        run.report.skipped.Perm otherRun.report.skipped) ∧
      (paths = otherPaths → ∀ path, (∀ next, next ≠ path → source.load next = other.load next) →
        (∀ next, next ≠ path → run.report.errorsFor next = otherRun.report.errorsFor next) ∧
        (run.report.skipped.filter (fun file => file.path ≠ path) =
          otherRun.report.skipped.filter fun file => file.path ≠ path) ∧
        run.report.discovered = otherRun.report.discovered ∧
        (Role.ofPath? path config.ext = none → run.report = otherRun.report)) := by
  have account := accounts_ofOutcomes source config.ext paths
  have account' := accounts_ofOutcomes other config.ext otherPaths
  have hdiscovered := discovered_ofOutcomes source config.ext paths
  have hdiscovered' := discovered_ofOutcomes other config.ext otherPaths
  refine ⟨_, _, run_of_paths h config, run_of_paths h' config, ?_, ?_⟩
  · intro hload hperm
    have hfiles := account.files_eq account' hload hperm
    have hlinted := account.linted_eq account' hload hperm
    have hskipped := account.skipped_perm account' hload hperm
    have hcount : (Report.ofOutcomes (source.outcomes config.ext paths)).discovered =
        (Report.ofOutcomes (other.outcomes config.ext otherPaths)).discovered := by
      rw [hdiscovered, hdiscovered', hperm.length_eq]
    refine ⟨hfiles, hcount, hlinted, ?_, hskipped⟩
    simp only [Report.summary, Report.filesWithErrors, Report.errorCount, hfiles, hcount, hlinted,
      hskipped.length_eq]
  · rintro rfl path hload
    refine ⟨fun next hnext => account.errorsFor_eq account' (hload next hnext),
      account.skipped_filter_eq account' hload, hdiscovered.trans hdiscovered'.symm, ?_⟩
    intro hrole
    have houtcomes : source.outcomes config.ext paths = other.outcomes config.ext paths := by
      refine outcomes_congr fun next => ?_
      by_cases hnext : next = path
      · subst hnext
        rw [outcome_of_role_none hrole, outcome_of_role_none hrole]
      · exact outcome_congr (hload next hnext)
    rw [houtcomes]

/-- A source whose files are all gone but one. -/
def remnant (paths : List String) (style : String) : Source where
  paths := .ok paths
  load path := if path = "style.scss" then .ok style else .error .unlisted

theorem run_independent_remnant :
    let source := remnant ["style.scss", "module/gone.scss", "style.scss"] "$x: 1;"
    let turned := remnant ["module/gone.scss", "style.scss", "style.scss"] "$x: 1;"
    let emptied := remnant ["style.scss", "module/gone.scss", "style.scss"] ""
    let noted := { source with
      load := fun path => if path = "notes.scss" then .ok "$x: 1;" else source.load path }
    (∃ run otherRun, source.run (.ofRoot []) = .ok run ∧ turned.run (.ofRoot []) = .ok otherRun ∧
      run.report.files = otherRun.report.files ∧
      run.report.summary = otherRun.report.summary) ∧
    (∃ run otherRun, source.run (.ofRoot []) = .ok run ∧ emptied.run (.ofRoot []) = .ok otherRun ∧
      run.report.skipped.filter (fun file => file.path ≠ "style.scss") =
        otherRun.report.skipped.filter (fun file => file.path ≠ "style.scss") ∧
      run.report.errorsFor "module/gone.scss" = otherRun.report.errorsFor "module/gone.scss") ∧
    ∃ run otherRun, source.run (.ofRoot []) = .ok run ∧ noted.run (.ofRoot []) = .ok otherRun ∧
      run.report = otherRun.report := by
  intro source turned emptied noted
  refine ⟨?_, ?_, ?_⟩
  · obtain ⟨run, otherRun, hrun, hother, hturned, -⟩ :=
      @run_independent (.ofRoot []) source turned _ _ rfl rfl
    obtain ⟨hfiles, -, -, hsummary, -⟩ := hturned rfl (by decide)
    exact ⟨run, otherRun, hrun, hother, hfiles, hsummary⟩
  · obtain ⟨run, otherRun, hrun, hother, -, hemptied⟩ :=
      @run_independent (.ofRoot []) source emptied _ _ rfl rfl
    have hload : ∀ next, next ≠ "style.scss" → source.load next = emptied.load next := by
      intro next hnext
      simp [source, emptied, remnant, hnext]
    obtain ⟨herrors, hskipped, -, -⟩ := hemptied rfl "style.scss" hload
    exact ⟨run, otherRun, hrun, hother, hskipped, herrors _ (by decide)⟩
  · obtain ⟨run, otherRun, hrun, hother, -, hnoted⟩ :=
      @run_independent (.ofRoot []) source noted _ _ rfl rfl
    have hload : ∀ next, next ≠ "notes.scss" → source.load next = noted.load next := by
      intro next hnext
      simp [noted, hnext]
    obtain ⟨-, -, -, hreport⟩ := hnoted rfl "notes.scss" hload
    exact ⟨run, otherRun, hrun, hother, hreport (by decide +kernel)⟩

end Source

end SheetLint
