import SheetLint.Program
import SheetLint.Proofs.Reload
import SheetLint.Proofs.ReportSteps

/-!
# What the exit status says

The program answers 0 exactly when there is a directory to start from, the walk comes to its end,
every file with a role can be read, and nothing is wrong with any line of any of them. The way there
leads over the report: it is clean if it has no entry and no skipped file, and it has an entry for
every file with a violation and for no other.
-/

namespace SheetLint

open Text

theorem lintContent_eq_nil_iff {content : String} {role : Role} {space : String} :
    lintContent content role space = [] ↔ ∀ number line, (number, line) ∈ splitLines content →
      (Line.ofString number line).fault? role space = none := by
  simp [lintContent, scan, List.filterMap_eq_nil_iff]

namespace Source

variable {source : Source} {ext : String} {paths : List String} {report : Report}

/-- Every file with a role can be read, and nothing is wrong with any of its lines. -/
def Spotless (source : Source) (ext : String) (paths : List String) : Prop :=
  ∀ path ∈ paths, ∀ role, Role.ofPath? path ext = some role →
    ∃ content, source.load path = .ok content ∧
      ∀ number line, (number, line) ∈ splitLines content →
        (Line.ofString number line).fault? role (baseName path ext) = none

theorem Accounts.entry_ne_nil (account : source.Accounts ext paths report) :
    ∀ entry ∈ report.files.entries, entry.2 ≠ [] := by
  rintro ⟨path, violations⟩ hentry
  exact ((account.files path violations).mp (Findings.mem_entries_iff.mp hentry)).2.2

theorem Accounts.skipped_eq_nil_iff (account : source.Accounts ext paths report) :
    report.skipped = [] ↔ ∀ path ∈ paths, ∀ role, Role.ofPath? path ext = some role →
      ∃ content, source.load path = .ok content := by
  rw [account.skipped, List.filterMap_eq_nil_iff]
  refine forall₂_congr fun path _ => ?_
  rw [skippedFile?]
  cases Role.ofPath? path ext with
  | none => simp
  | some role => cases source.load path <;> simp

theorem Accounts.entries_eq_nil_iff (account : source.Accounts ext paths report) :
    report.files.entries = [] ↔
      ∀ path ∈ paths, ∀ violations, source.Finds ext path violations → violations = [] := by
  rw [List.eq_nil_iff_forall_not_mem]
  constructor
  · intro h path hpath violations hfinds
    by_contra hne
    have hfind := (account.files path violations).mpr ⟨hpath, hfinds, hne⟩
    exact h _ (Findings.mem_entries_iff.mpr hfind)
  · rintro h ⟨path, violations⟩ hentry
    obtain ⟨hpath, hfinds, hne⟩ :=
      (account.files path violations).mp (Findings.mem_entries_iff.mp hentry)
    exact hne (h path hpath violations hfinds)

theorem Accounts.isClean_iff (account : source.Accounts ext paths report) :
    report.isClean = true ↔ source.Spotless ext paths := by
  rw [Report.isClean_iff, account.entries_eq_nil_iff, account.skipped_eq_nil_iff]
  constructor
  · rintro ⟨hquiet, hloads⟩ path hpath role hrole
    obtain ⟨content, hload⟩ := hloads path hpath role hrole
    exact ⟨content, hload, lintContent_eq_nil_iff.mp
      (hquiet path hpath _ ⟨role, content, hrole, hload, rfl⟩)⟩
  · intro hspotless
    constructor
    · rintro path hpath violations ⟨role, content, hrole, hload, rfl⟩
      obtain ⟨content', hload', hlines⟩ := hspotless path hpath role hrole
      cases hload.symm.trans hload'
      exact lintContent_eq_nil_iff.mpr hlines
    · intro path hpath role hrole
      obtain ⟨content, hload, -⟩ := hspotless path hpath role hrole
      exact ⟨content, hload⟩

end Source

namespace Scope

variable {scope : Scope} {root : Place} {ext : String}

/-- What keeps a run from starting. -/
inductive RootFails (scope : Scope) : RootProblem → Prop where
  | missing (lost : ∀ root, ¬ scope.volume.Reaches scope.base scope.root root) :
      RootFails scope .missing
  | notADirectory {root : Place} (hroot : scope.volume.Reaches scope.base scope.root root)
      (other : scope.volume.at? root ≠ some .directory) : RootFails scope .notADirectory

theorem exists_rootFails (h : ¬ ∃ root, scope.volume.Reaches scope.base scope.root root ∧
    scope.volume.at? root = some .directory) : ∃ problem, scope.RootFails problem := by
  by_cases hlost : ∀ root, ¬ scope.volume.Reaches scope.base scope.root root
  · exact ⟨_, .missing hlost⟩
  · obtain ⟨root, hroot⟩ := not_forall_not.mp hlost
    exact ⟨_, .notADirectory hroot fun hdirectory => h ⟨root, hroot, hdirectory⟩⟩

theorem checkRoot_of_rootFails {problem : RootProblem} (h : scope.RootFails problem) :
    scope.checkRoot = .error (.configuration scope.root problem) := by
  rw [checkRoot]
  cases h with
  | missing lost =>
    split
    · rfl
    · next place htarget => exact absurd (target_eq_ok_iff.mp htarget) (lost place)
  | @notADirectory root hroot other =>
    have htarget : scope.target [] = .ok root := target_eq_ok_iff.mpr hroot
    rw [htarget]
    exact if_neg fun hdirectory => other (Volume.isDirectory_iff.mp hdirectory)

/-- Nothing is walked for a root that fails: the error does not depend on what a walk would find. -/
theorem run_of_rootFails {problem : RootProblem} (h : scope.RootFails problem) (ext : String) :
    (⟨scope.root, ext⟩ : Config).run scope.volume scope.base =
      .error (.configuration scope.root problem) := by
  rw [Config.run, checkRoot_of_rootFails h]

section Root

variable (hroot : scope.volume.Reaches scope.base scope.root root)
  (hdirectory : scope.volume.at? root = some .directory)

include hroot hdirectory

theorem run_of_broken {error : WalkError} (h : scope.stylesheets ext = .error error) :
    (⟨scope.root, ext⟩ : Config).run scope.volume scope.base = .error (.discovery error) := by
  have hpaths : (scope.source ext).paths = .error (.discovery error) :=
    congrArg (Except.mapError RunError.discovery) h
  rw [run_eq_run hroot hdirectory, Source.run, hpaths]
  rfl

theorem run_of_listed {listed : List String} (h : scope.stylesheets ext = .ok listed) :
    ∃ run, (⟨scope.root, ext⟩ : Config).run scope.volume scope.base = .ok run ∧
      (scope.source ext).Accounts ext listed run.report := by
  have hpaths : (scope.source ext).paths = .ok listed :=
    congrArg (Except.mapError RunError.discovery) h
  exact ⟨_, (run_eq_run hroot hdirectory ext).trans (Source.run_of_paths hpaths ⟨scope.root, ext⟩),
    Source.accounts_ofOutcomes (scope.source ext) ext listed⟩

end Root

end Scope

/-- Where the program looks for files. -/
def Options.scope (options : Options) (around : Surroundings) : Scope :=
  ⟨around.volume, around.base, options.config.root⟩

section Program

variable {around : Surroundings} {options : Options} {root : Place}

theorem Options.status_eq_zero_or_one (options : Options) (around : Surroundings) :
    (options.run around).status = 0 ∨ (options.run around).status = 1 := by
  rw [run]
  split
  · exact Or.inr rfl
  · next found _ => cases found.report.isClean <;> simp

theorem Options.run_of_rootFails {problem : RootProblem}
    (h : (options.scope around).RootFails problem) :
    options.config.run around.volume around.base =
        .error (.configuration options.config.root problem) ∧
      options.run around =
        ⟨1, "", (RunError.configuration options.config.root problem).report⟩ := by
  have hresult : options.config.run around.volume around.base =
      .error (.configuration options.config.root problem) :=
    Scope.run_of_rootFails h options.config.ext
  exact ⟨hresult, by rw [run, hresult]⟩

section Root

variable (hroot : around.volume.Reaches around.base options.config.root root)
  (hdirectory : around.volume.at? root = some .directory)

include hroot hdirectory

theorem Options.run_of_broken {error : WalkError}
    (h : (options.scope around).stylesheets options.config.ext = .error error) :
    options.config.run around.volume around.base = .error (.discovery error) ∧
      options.run around = ⟨1, "", (RunError.discovery error).report⟩ := by
  have hresult : options.config.run around.volume around.base = .error (.discovery error) :=
    Scope.run_of_broken hroot hdirectory h
  exact ⟨hresult, by rw [run, hresult]⟩

/-- With a report the status is 0 exactly if the report is clean, which its summary tells and so do
the files. -/
theorem Options.run_of_listed {listed : List String}
    (h : (options.scope around).stylesheets options.config.ext = .ok listed) :
    ∃ found, options.config.run around.volume around.base = .ok found ∧
      ((options.run around).status = 0 ↔
        ((options.scope around).source options.config.ext).Spotless options.config.ext listed) ∧
      (found.report.summary.errors = 0 ∧ found.report.summary.skipped = 0 ↔
        (options.run around).status = 0) := by
  obtain ⟨found, hfound, account⟩ := Scope.run_of_listed hroot hdirectory h
  have hresult : options.config.run around.volume around.base = .ok found := hfound
  have hzero : (options.run around).status = 0 ↔ found.report.isClean = true := by
    rw [run, hresult]
    by_cases hclean : found.report.isClean = true <;> simp [hclean]
  refine ⟨found, hresult, ?_, ?_⟩
  · rw [hzero, account.isClean_iff]
  · rw [hzero, Report.isClean_iff_summary account.entry_ne_nil]

end Root

/-- The status is 0 exactly if the root is a directory, the walk comes to its end, and every file
with a role can be read and has nothing wrong with any line; otherwise it is 1. A root that fails is
told before anything is walked and a broken walk after that, with nothing on standard output. If
there is a report, its summary counts no violation and no skipped file exactly if the status is 0. -/
theorem runProgram_status (around : Surroundings) {arguments : List String} {options : Options}
    (h : Options.ofArguments arguments = .ok options) :
    let scope := options.scope around
    let ext := options.config.ext
    let result := options.config.run around.volume around.base
    let output := runProgram arguments around
    (output.status = 0 ↔ ∃ root listed, scope.volume.Reaches scope.base scope.root root ∧
      scope.volume.at? root = some .directory ∧ scope.stylesheets ext = .ok listed ∧
      (scope.source ext).Spotless ext listed) ∧
    (output.status ≠ 0 → output.status = 1) ∧
    ((¬ ∃ root, scope.volume.Reaches scope.base scope.root root ∧
        scope.volume.at? root = some .directory) →
      ∃ problem, scope.RootFails problem ∧
        result = .error (.configuration scope.root problem) ∧
        output = ⟨1, "", (RunError.configuration scope.root problem).report⟩) ∧
    ∀ root, scope.volume.Reaches scope.base scope.root root →
      scope.volume.at? root = some .directory →
      (∀ error, scope.stylesheets ext = .error error → result = .error (.discovery error) ∧
        output = ⟨1, "", (RunError.discovery error).report⟩) ∧
      ∀ listed, scope.stylesheets ext = .ok listed → ∃ run, result = .ok run ∧
        (run.report.summary.errors = 0 ∧ run.report.summary.skipped = 0 ↔ output.status = 0) := by
  intro scope ext result output
  have houtput : output = options.run around := by
    simp only [output, runProgram, h]
  rw [houtput]
  refine ⟨?_, (Options.status_eq_zero_or_one options around).resolve_left, ?_, ?_⟩
  · constructor
    · intro hzero
      -- A status of 0 rules out the two ways in which a run ends without a report.
      by_cases hrooted : ∃ root, scope.volume.Reaches scope.base scope.root root ∧
          scope.volume.at? root = some .directory
      · obtain ⟨root, hroot, hdirectory⟩ := hrooted
        cases hsheets : scope.stylesheets ext with
        | error error =>
          obtain ⟨-, hone⟩ := Options.run_of_broken hroot hdirectory hsheets
          rw [hone] at hzero
          exact absurd hzero Nat.one_ne_zero
        | ok listed =>
          obtain ⟨-, -, hspotless, -⟩ := Options.run_of_listed hroot hdirectory hsheets
          exact ⟨root, listed, hroot, hdirectory, rfl, hspotless.mp hzero⟩
      · obtain ⟨problem, hproblem⟩ := Scope.exists_rootFails hrooted
        obtain ⟨-, hone⟩ := Options.run_of_rootFails hproblem
        rw [hone] at hzero
        exact absurd hzero Nat.one_ne_zero
    · rintro ⟨root, listed, hroot, hdirectory, hsheets, hspotless⟩
      obtain ⟨-, -, hzero, -⟩ := Options.run_of_listed hroot hdirectory hsheets
      exact hzero.mpr hspotless
  · intro hunrooted
    obtain ⟨problem, hproblem⟩ := Scope.exists_rootFails hunrooted
    exact ⟨problem, hproblem, Options.run_of_rootFails hproblem⟩
  · intro root hroot hdirectory
    refine ⟨fun error herror => Options.run_of_broken hroot hdirectory herror, ?_⟩
    intro listed hsheets
    obtain ⟨found, hfound, -, hsummary⟩ := Options.run_of_listed hroot hdirectory hsheets
    exact ⟨found, hfound, hsummary⟩

/-- A directory with a module whose name is no text and a style that declares a variable. -/
def spoiltSite : Volume where
  entries :=
    [([bytesOf "d"], .directory), ([bytesOf "module", bytesOf "d"], .directory),
      ([Scope.latinName, bytesOf "module", bytesOf "d"], .file []),
      ([bytesOf "style.css", bytesOf "d"], .file (bytesOf "$a: 1;"))]
  distinct := by decide +kernel
  placed := Volume.placed_of_forall (by decide +kernel)

theorem stylesheets_spoiltSite : (⟨spoiltSite, [], bytesOf "d"⟩ : Scope).stylesheets "css" =
    .ok ["module/caf\uFFFD.css", "style.css"] := by
  let scope : Scope := ⟨spoiltSite, [], bytesOf "d"⟩
  have hd : scope.volume.names [bytesOf "d"] = [bytesOf "module", bytesOf "style.css"] := by
    decide +kernel
  have hinside : scope.volume.names [bytesOf "module", bytesOf "d"] = [Scope.latinName] := by
    decide +kernel
  have hmodule : scope.meet ⟨[bytesOf "d"], []⟩ [] (bytesOf "module") =
      .ok (.directory [bytesOf "module", bytesOf "d"]) := rfl
  have hlatin : scope.meet ⟨[bytesOf "module", bytesOf "d"], [bytesOf "module"]⟩
      [⟨[bytesOf "d"], []⟩] Scope.latinName = .ok .file := rfl
  have hstyle : scope.meet ⟨[bytesOf "d"], []⟩ [] (bytesOf "style.css") = .ok .file := rfl
  have hfiles : scope.files = .ok [[Scope.latinName, bytesOf "module"], [bytesOf "style.css"]] := by
    rw [Scope.files_eq_walk (Scope.reaches_d rfl) rfl]
    simp only [hd, hinside, Scope.walk_cons, hmodule, hlatin, hstyle, Scope.walk]
    rfl
  exact Scope.stylesheets_of_files hfiles (by decide +kernel) (by decide +kernel)

theorem run_spoiltSite : ∃ run, Config.run ⟨bytesOf "d", "css"⟩ spoiltSite [] = .ok run ∧
    run.report.summary = ⟨2, 1, 1, 1, 1⟩ := by
  let scope : Scope := ⟨spoiltSite, [], bytesOf "d"⟩
  have hpaths : (scope.source "css").paths = .ok ["module/caf\uFFFD.css", "style.css"] :=
    congrArg (Except.mapError RunError.discovery) stylesheets_spoiltSite
  exact ⟨_, (Scope.run_eq_run (Scope.reaches_d rfl) rfl "css").trans
    (Source.run_of_paths hpaths ⟨bytesOf "d", "css"⟩), by decide +kernel⟩

/-- An empty stylesheet has one line, and nothing is wrong with it. -/
theorem spotless_single :
    ((⟨Scope.single (bytesOf "style.css") (by decide), [], bytesOf "d"⟩ : Scope).source
      "css").Spotless "css" ["style.css"] := by
  intro path hpath role hrole
  cases List.mem_singleton.mp hpath
  have hstyle : Role.ofPath? "style.css" "css" = some .style := by decide +kernel
  cases hstyle.symm.trans hrole
  refine ⟨"", by decide +kernel, fun number line hline => ?_⟩
  have hlines : splitLines "" = [(1, "")] := by decide +kernel
  rw [hlines] at hline
  cases List.mem_singleton.mp hline
  rfl

/-- A directory with one empty stylesheet, one with a stylesheet that is wrong and one that cannot
be loaded, and one that is not there. -/
theorem runProgram_status_single :
    let around : Surroundings := ⟨Scope.single (bytesOf "style.css") (by decide), [], false, none⟩
    Options.ofArguments ["d", "--extension=.css", "--json", "-v"] =
      .ok ⟨some "d", some ".css", true, true⟩ ∧
    (runProgram ["d", "--extension=.css", "--json", "-v"] around).status = 0 ∧
    Options.ofArguments ["gone"] = .ok ⟨some "gone", none, false, false⟩ ∧
    runProgram ["gone"] around =
      ⟨1, "", "Error: Configuration error: scan root does not exist (gone)\n"⟩ ∧
    let spoilt : Surroundings := ⟨spoiltSite, [], false, none⟩
    Options.ofArguments ["d", "--extension", "css"] = .ok ⟨some "d", some "css", false, false⟩ ∧
    (runProgram ["d", "--extension", "css"] spoilt).status = 1 ∧
    ∃ run, Config.run ⟨bytesOf "d", "css"⟩ spoiltSite [] = .ok run ∧
      run.report.summary = ⟨2, 1, 1, 1, 1⟩ := by
  intro around
  have hd : Options.ofArguments ["d", "--extension=.css", "--json", "-v"] =
      .ok ⟨some "d", some ".css", true, true⟩ := by decide +kernel
  have hgone : Options.ofArguments ["gone"] = .ok ⟨some "gone", none, false, false⟩ := by
    decide +kernel
  refine ⟨hd, ?_, hgone, ?_, ?_⟩
  · have hconfig : (⟨some "d", some ".css", true, true⟩ : Options).config =
        ⟨bytesOf "d", "css"⟩ := by decide +kernel
    obtain ⟨hzero, -⟩ := runProgram_status around hd
    rw [Options.scope, hconfig] at hzero
    have hroot : around.volume.Reaches [] (bytesOf "d") [bytesOf "d"] := Scope.reaches_d rfl
    have hfiles : (⟨around.volume, [], bytesOf "d"⟩ : Scope).files = .ok [[bytesOf "style.css"]] :=
      @Scope.files_single _ (by decide) _ _ hroot
    have hlisted : (⟨around.volume, [], bytesOf "d"⟩ : Scope).stylesheets "css" =
        .ok ["style.css"] :=
      Scope.stylesheets_of_files hfiles (by decide +kernel) (List.pairwise_singleton _ _)
    exact hzero.mpr ⟨_, _, hroot, rfl, hlisted, spotless_single⟩
  · obtain ⟨-, -, hunrooted, -⟩ := runProgram_status around hgone
    have hconfig : (⟨some "gone", none, false, false⟩ : Options).config =
        ⟨bytesOf "gone", "scss"⟩ := by decide +kernel
    rw [Options.scope, hconfig] at hunrooted
    have hlost : ∀ root, ¬ around.volume.Reaches [] (bytesOf "gone") root := by
      intro root hroot
      have hfind : around.volume.find [] (bytesOf "gone") = .error (.os .notFound) := by
        decide +kernel
      rw [Volume.find_eq_ok_iff.mpr hroot] at hfind
      cases hfind
    obtain ⟨problem, hproblem, -, houtput⟩ := hunrooted (by
      rintro ⟨root, hroot, -⟩
      exact hlost root hroot)
    cases hproblem with
    | missing =>
      rw [houtput]
      decide +kernel
    | notADirectory hroot => exact absurd hroot (hlost _)
  · intro spoilt
    have hspoilt : Options.ofArguments ["d", "--extension", "css"] =
        .ok ⟨some "d", some "css", false, false⟩ := by decide +kernel
    have hconfig : (⟨some "d", some "css", false, false⟩ : Options).config =
        ⟨bytesOf "d", "css"⟩ := by decide +kernel
    obtain ⟨run, hrun, hsummary⟩ := run_spoiltSite
    obtain ⟨-, hone, -, hrooted⟩ := runProgram_status spoilt hspoilt
    rw [Options.scope, hconfig] at hrooted
    obtain ⟨-, hlisted⟩ := hrooted [bytesOf "d"] (Scope.reaches_d rfl) rfl
    obtain ⟨run', hrun', hzero⟩ := hlisted _ stylesheets_spoiltSite
    cases hrun.symm.trans hrun'
    refine ⟨hspoilt, hone fun hstatus => ?_, run, hrun, hsummary⟩
    obtain ⟨herrors, -⟩ := hzero.mpr hstatus
    rw [hsummary] at herrors
    cases herrors

end Program

end SheetLint
