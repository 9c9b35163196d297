import Mathlib.Algebra.BigOperators.Group.Finset.Basic
import Mathlib.Algebra.GroupWithZero.Nat
import SheetLint.Proofs.Accounting

/-!
# What a report has grown to

A report grows by steps: a file is recorded with its violations, or it is skipped. The invariant
below reads every part of the report off the steps that have been taken, in whatever order the paths
came and however often. One step keeps it, so any number of steps does, and the counts and the
verdict of the report follow from it.
-/

namespace SheetLint

namespace Findings

theorem nodup_paths (findings : Findings) : findings.paths.Nodup :=
  findings.paths_sorted.imp ne_of_lt

theorem mem_paths_iff {findings : Findings} {path : String} :
    path ∈ findings.paths ↔ ∃ violations, findings.find? path = some violations := by
  simp only [paths, List.mem_map, Prod.exists, exists_and_right, exists_eq_right, mem_entries_iff]

end Findings

namespace Report

theorem filesWithErrors_eq_card (report : Report) :
    report.filesWithErrors = report.files.paths.toFinset.card := by
  rw [List.toFinset_card_of_nodup report.files.nodup_paths, Findings.paths, List.length_map,
    filesWithErrors]

theorem isClean_iff {report : Report} :
    report.isClean = true ↔ report.files.entries = [] ∧ report.skipped = [] := by
  simp [isClean]

/-- No entry is empty, so the number of violations tells whether there are entries. -/
theorem errorCount_eq_zero_iff {report : Report}
    (h : ∀ entry ∈ report.files.entries, entry.2 ≠ []) :
    report.errorCount = 0 ↔ report.files.entries = [] := by
  rw [errorCount]
  cases hentries : report.files.entries with
  | nil => simp
  | cons entry rest =>
    have hentry : 0 < entry.2.length :=
      List.length_pos_iff.mpr (h entry (hentries ▸ List.mem_cons_self))
    simp only [List.foldr_cons, reduceCtorEq, iff_false]
    omega

theorem isClean_iff_summary {report : Report}
    (h : ∀ entry ∈ report.files.entries, entry.2 ≠ []) :
    report.isClean = true ↔ report.summary.errors = 0 ∧ report.summary.skipped = 0 := by
  rw [isClean_iff, ← errorCount_eq_zero_iff h, summary, List.length_eq_zero_iff]

theorem errorCount_eq_sum_map (report : Report) :
    report.errorCount = (report.files.entries.map fun entry => entry.2.length).sum := by
  rw [errorCount]
  induction report.files.entries with
  | nil => rfl
  | cons entry entries ih => rw [List.foldr_cons, List.map_cons, List.sum_cons, ih]

/-- Each path with an entry adds the length of its list to the number of violations. -/
theorem errorCount_eq_sum (report : Report) :
    report.errorCount = ∑ path ∈ report.files.paths.toFinset, (report.errorsFor path).length := by
  have hlengths : report.files.paths.map (fun path => (report.errorsFor path).length) =
      report.files.entries.map fun entry => entry.2.length := by
    rw [Findings.paths, List.map_map]
    refine List.map_congr_left ?_
    rintro ⟨path, violations⟩ hentry
    have hfind := Findings.mem_entries_iff.mp hentry
    simp only [Function.comp_apply, errorsFor, hfind, Option.getD_some]
  rw [List.sum_toFinset _ report.files.nodup_paths, hlengths, errorCount_eq_sum_map]

end Report

/-- One way in which a report grows. -/
inductive ReportStep where
  | record (path : String) (violations : List Violation)
  | skip (path reason : String)
deriving DecidableEq, Repr

namespace ReportStep

def apply (report : Report) : ReportStep → Report
  | record path violations => report.record path violations
  | skip path reason => report.skip path reason

def isRecord : ReportStep → Bool
  | record .. => true
  | skip .. => false

def skipped? : ReportStep → Option SkippedFile
  | record .. => none
  | skip path reason => some ⟨path, reason⟩

/-- The path of a file that is recorded with a violation. -/
def flagged? : ReportStep → Option String
  | record path violations => if violations = [] then none else some path
  | skip .. => none

/-- The violations are those of the last step that recorded any for the path. -/
def LastFound (steps : List ReportStep) (path : String) (violations : List Violation) : Prop :=
  ∃ front back, steps = front ++ record path violations :: back ∧ violations ≠ [] ∧
    ∀ later, record path later ∈ back → later = []

/-- All paths that were ever recorded with a violation. -/
def flagged (steps : List ReportStep) : Finset String := (steps.filterMap flagged?).toFinset

theorem mem_flagged_iff {steps : List ReportStep} {path : String} :
    path ∈ flagged steps ↔ ∃ violations, record path violations ∈ steps ∧ violations ≠ [] := by
  rw [flagged, List.mem_toFinset, List.mem_filterMap]
  constructor
  · rintro ⟨step, hstep, hpath⟩
    cases step with
    | record other violations =>
      by_cases hne : violations = []
      · simp [flagged?, hne] at hpath
      · obtain rfl : other = path := by simpa [flagged?, hne] using hpath
        exact ⟨violations, hstep, hne⟩
    | skip other reason => cases hpath
  · rintro ⟨violations, hstep, hne⟩
    exact ⟨_, hstep, by simp [flagged?, hne]⟩

/-- The last step decides if it records a violation for the path, and else what was before it. -/
theorem lastFound_concat_iff {steps : List ReportStep} {step : ReportStep} {path : String}
    {violations : List Violation} :
    LastFound (steps ++ [step]) path violations ↔
      (step = record path violations ∧ violations ≠ []) ∨
        LastFound steps path violations ∧ ∀ later, step = record path later → later = [] := by
  constructor
  · rintro ⟨front, back, hsteps, hne, hlater⟩
    rcases List.eq_nil_or_concat back with rfl | ⟨back, last, rfl⟩
    · obtain ⟨-, hlast⟩ := List.append_inj' hsteps rfl
      exact Or.inl ⟨List.singleton_inj.mp hlast, hne⟩
    · rw [List.concat_eq_append, ← List.cons_append, ← List.append_assoc] at hsteps
      obtain ⟨rfl, hlast⟩ := List.append_inj' hsteps rfl
      obtain rfl := List.singleton_inj.mp hlast
      refine Or.inr ⟨⟨front, back, rfl, hne, fun later hm => hlater later ?_⟩, ?_⟩
      · simp [hm]
      · rintro later rfl
        exact hlater later (by simp)
  · rintro (⟨rfl, hne⟩ | ⟨⟨front, back, rfl, hne, hlater⟩, hquiet⟩)
    · exact ⟨steps, [], rfl, hne, by simp⟩
    · refine ⟨front, back ++ [step], by simp, hne, fun later hm => ?_⟩
      rcases List.mem_append.mp hm with hm | hm
      · exact hlater later hm
      · exact hquiet later (List.mem_singleton.mp hm).symm

theorem exists_lastFound_iff {steps : List ReportStep} {path : String} :
    (∃ violations, LastFound steps path violations) ↔ path ∈ flagged steps := by
  rw [mem_flagged_iff]
  constructor
  · rintro ⟨violations, front, back, rfl, hne, -⟩
    exact ⟨violations, by simp, hne⟩
  · rintro ⟨violations, hmem, hne⟩
    induction steps using List.reverseRecOn with
    | nil => cases hmem
    | append_singleton steps step ih =>
      by_cases hlast : ∃ later, step = record path later ∧ later ≠ []
      · obtain ⟨later, rfl, hlater⟩ := hlast
        exact ⟨later, lastFound_concat_iff.mpr (Or.inl ⟨rfl, hlater⟩)⟩
      · have hquiet : ∀ later, step = record path later → later = [] := by
          intro later heq
          by_contra hlater
          exact hlast ⟨later, heq, hlater⟩
        rcases List.mem_append.mp hmem with hmem | hmem
        · obtain ⟨found, hfound⟩ := ih hmem
          exact ⟨found, lastFound_concat_iff.mpr (Or.inr ⟨hfound, hquiet⟩)⟩
        · exact absurd (hquiet violations (List.mem_singleton.mp hmem).symm) hne

end ReportStep

namespace Report

open ReportStep

/-- The report after the steps. -/
def after (discovered : Nat) (steps : List ReportStep) : Report :=
  steps.foldl ReportStep.apply (.start discovered)

/-- The report says of the steps what there is to say. -/
structure Recounts (discovered : Nat) (steps : List ReportStep) (report : Report) : Prop where
  discovered : report.discovered = discovered
  linted : report.linted = steps.countP isRecord
  skipped : report.skipped = steps.filterMap skipped?
  files : ∀ path violations,
    report.files.find? path = some violations ↔ LastFound steps path violations

variable {discovered : Nat} {steps : List ReportStep} {report : Report}

theorem recounts_start (discovered : Nat) : Recounts discovered [] (.start discovered) where
  discovered := rfl
  linted := rfl
  skipped := rfl
  files := by simp [start, Findings.empty, Findings.find?, LastFound]

theorem Recounts.record (h : Recounts discovered steps report) (path : String)
    (violations : List Violation) :
    Recounts discovered (steps ++ [.record path violations]) (report.record path violations) where
  discovered := h.discovered
  linted := by simp [Report.record, isRecord, h.linted]
  skipped := by simp [Report.record, skipped?, h.skipped]
  files := by
    intro other found
    rw [lastFound_concat_iff, ← h.files]
    by_cases hne : violations = []
    · -- An empty list is not stored and takes nothing away.
      simp [Report.record, hne, and_assoc]
    · have hfiles : (report.record path violations).files = report.files.insert path violations :=
        if_neg hne
      rw [hfiles, Findings.find?_insert]
      by_cases hpath : other = path
      · subst hpath
        simp only [if_true, Option.some.injEq, ReportStep.record.injEq, true_and, forall_eq', hne,
          and_false, or_false]
        constructor
        · rintro rfl
          exact ⟨rfl, hne⟩
        · exact And.left
      · have hother : path ≠ other := fun heq => hpath heq.symm
        simp [hpath, hother]

theorem Recounts.skip (h : Recounts discovered steps report) (path reason : String) :
    Recounts discovered (steps ++ [.skip path reason]) (report.skip path reason) where
  discovered := h.discovered
  linted := by simp [Report.skip, isRecord, h.linted]
  skipped := by simp [Report.skip, skipped?, h.skipped]
  files := by
    intro other found
    rw [lastFound_concat_iff, ← h.files]
    simp [Report.skip]

theorem recounts_after (discovered : Nat) (steps : List ReportStep) :
    Recounts discovered steps (after discovered steps) := by
  induction steps using List.reverseRecOn with
  | nil => exact recounts_start discovered
  | append_singleton steps step ih =>
    have hafter : after discovered (steps ++ [step]) = step.apply (after discovered steps) := by
      rw [after, List.foldl_append]
      rfl
    rw [hafter]
    cases step with
    | record path violations => exact ih.record path violations
    | skip path reason => exact ih.skip path reason

namespace Recounts

theorem exists_find?_iff (h : Recounts discovered steps report) {path : String} :
    (∃ violations, report.files.find? path = some violations) ↔ path ∈ flagged steps := by
  simp only [h.files, exists_lastFound_iff]

theorem find?_eq_none_iff (h : Recounts discovered steps report) {path : String} :
    report.files.find? path = none ↔
      ∀ violations, .record path violations ∈ steps → violations = [] := by
  rw [← Option.not_isSome_iff_eq_none, Option.isSome_iff_exists, h.exists_find?_iff,
    mem_flagged_iff]
  simp only [not_exists, not_and, ne_eq, not_not]

theorem entry_ne_nil (h : Recounts discovered steps report) :
    ∀ entry ∈ report.files.entries, entry.2 ≠ [] := by
  rintro ⟨path, violations⟩ hentry
  obtain ⟨-, -, -, hne, -⟩ := (h.files path violations).mp (Findings.mem_entries_iff.mp hentry)
  exact hne

theorem errorsFor_eq_nil_iff (h : Recounts discovered steps report) {path : String} :
    report.errorsFor path = [] ↔ report.files.find? path = none := by
  rw [errorsFor]
  cases hfind : report.files.find? path with
  | none => simp
  | some violations =>
    have hne := h.entry_ne_nil _ (Findings.mem_entries_iff.mpr hfind)
    simpa using hne

theorem toFinset_paths (h : Recounts discovered steps report) :
    report.files.paths.toFinset = flagged steps := by
  ext path
  rw [List.mem_toFinset, Findings.mem_paths_iff, h.exists_find?_iff]

theorem skipped_eq_nil_iff (h : Recounts discovered steps report) :
    report.skipped = [] ↔ ∀ path reason, .skip path reason ∉ steps := by
  rw [h.skipped, List.filterMap_eq_nil_iff]
  constructor
  · intro hnone path reason hmem
    cases hnone _ hmem
  · intro hnone step hstep
    cases step with
    | record path violations => rfl
    | skip path reason => exact absurd hstep (hnone path reason)

theorem entries_eq_nil_iff (h : Recounts discovered steps report) :
    report.files.entries = [] ↔
      ∀ path violations, .record path violations ∈ steps → violations = [] := by
  rw [← List.map_eq_nil_iff (f := Prod.fst), ← Findings.paths, List.eq_nil_iff_forall_not_mem]
  refine forall_congr' fun path => ?_
  rw [← h.find?_eq_none_iff, Findings.mem_paths_iff, ← Option.isSome_iff_exists,
    Option.not_isSome_iff_eq_none]

end Recounts

/-- Every part of a report after any steps, and what it says as a whole. A path keeps the violations
of the last step that recorded any for it, so no list that is kept is empty; the counts are those of
the distinct paths; and the report is clean if no step skipped a file or recorded a violation. -/
theorem after_exact (discovered : Nat) (steps : List ReportStep) :
    let report := after discovered steps
    report.discovered = discovered ∧
    report.linted = steps.countP isRecord ∧
    report.skipped = steps.filterMap skipped? ∧
    (∀ path violations, report.files.find? path = some violations ↔
      LastFound steps path violations) ∧
    (∀ path, report.files.find? path = none ↔
      ∀ violations, .record path violations ∈ steps → violations = []) ∧
    (∀ entry ∈ report.files.entries, entry.2 ≠ []) ∧
    (∀ path, report.errorsFor path = [] ↔ report.files.find? path = none) ∧
    report.errorCount = ∑ path ∈ flagged steps, (report.errorsFor path).length ∧
    report.filesWithErrors = (flagged steps).card ∧
    (report.isClean = true ↔
      report.errorCount = 0 ∧ ∀ path reason, .skip path reason ∉ steps) ∧
    (report.isClean = true ↔
      (∀ path reason, .skip path reason ∉ steps) ∧
        ∀ path violations, .record path violations ∈ steps → violations = []) := by
  intro report
  have h : Recounts discovered steps report := recounts_after discovered steps
  refine ⟨h.discovered, h.linted, h.skipped, h.files, fun path => h.find?_eq_none_iff,
    h.entry_ne_nil, fun path => h.errorsFor_eq_nil_iff, ?_, ?_, ?_, ?_⟩
  · rw [errorCount_eq_sum, h.toFinset_paths]
  · rw [filesWithErrors_eq_card, h.toFinset_paths]
  · rw [isClean_iff, errorCount_eq_zero_iff h.entry_ne_nil, h.skipped_eq_nil_iff]
  · rw [isClean_iff, h.entries_eq_nil_iff, h.skipped_eq_nil_iff, and_comm]

/-- The second record of a path takes the place of the first, and the third takes nothing away. -/
theorem after_exact_repeated :
    let steps : List ReportStep :=
      [.record "b" [⟨1, "x"⟩, ⟨2, "y"⟩], .skip "c" "gone", .record "a" [⟨3, "x"⟩],
        .record "b" [⟨4, "z"⟩], .record "b" [], .record "d" []]
    (∀ violations, ReportStep.record "d" violations ∈ steps → violations = []) ∧
      (after 7 steps).files.find? "d" = none ∧ (after 7 steps).errorsFor "b" = [⟨4, "z"⟩] ∧
      (after 7 steps).linted = 5 ∧ (after 7 steps).isClean = false := by
  intro steps
  obtain ⟨-, hlinted, -, hfiles, hnone, -, -, -, -, hclean, -⟩ := after_exact 7 steps
  have hquiet : ∀ violations, ReportStep.record "d" violations ∈ steps → violations = [] := by
    intro violations hmem
    simpa [steps] using hmem
  have hlast : LastFound steps "b" [⟨4, "z"⟩] :=
    ⟨steps.take 3, [.record "b" [], .record "d" []], rfl, by simp, by simp⟩
  refine ⟨hquiet, (hnone "d").mpr hquiet, ?_, hlinted, ?_⟩
  · rw [errorsFor, (hfiles "b" _).mpr hlast]
    rfl
  · rw [Bool.eq_false_iff, ne_eq, hclean]
    rintro ⟨-, hskipped⟩
    exact hskipped "c" "gone" (by simp [steps])

end Report

end SheetLint
