import SheetLint.Failure
import SheetLint.Report
import SheetLint.Rule

/-!
# Linting the files of a source

A source names files and loads them one by one. A run gives each named file an outcome that depends
on nothing but that file: it has no role, or it cannot be loaded, or it is linted. The report and
the log are two readings of the list of outcomes, in the order in which the source names the files.
-/

namespace SheetLint

open Text

/-- The violations of a content, at most one in each line, in the order of the lines. -/
def lintContent (content : String) (role : Role) (space : String) : List Violation :=
  (scan content).filterMap fun line =>
    (line.fault? role space).map fun fault => ⟨line.number, fault.message⟩

/-- A file whose role is known, with its content and the namespace of its declarations. -/
structure Stylesheet where
  path : String
  space : String
  role : Role
  content : String
deriving DecidableEq, Repr

def Stylesheet.ofContent (path : String) (role : Role) (content ext : String) : Stylesheet :=
  { path, space := baseName path ext, role, content }

def Stylesheet.lint (sheet : Stylesheet) : List Violation :=
  lintContent sheet.content sheet.role sheet.space

/-- Where files come from: the paths of all candidates, and the content behind each path. -/
structure Source where
  paths : Except RunError (List String)
  load : String → Except PathFailure String

inductive Outcome where
  | withoutRole
  | unreadable (failure : PathFailure)
  | linted (violations : List Violation)
deriving DecidableEq, Repr

def Source.outcome (source : Source) (ext path : String) : Outcome :=
  match Role.ofPath? path ext with
  | none => .withoutRole
  | some role =>
    match source.load path with
    | .error failure => .unreadable failure
    | .ok content => .linted (Stylesheet.ofContent path role content ext).lint

/-- Each path with its outcome, in the order of the paths. -/
def Source.outcomes (source : Source) (ext : String) (paths : List String) :
    List (String × Outcome) :=
  paths.map fun path => (path, source.outcome ext path)

/-- Add one file to a report. A file without a role changes nothing. -/
def Report.add (report : Report) : String × Outcome → Report
  | (_, .withoutRole) => report
  | (path, .unreadable failure) => report.skip path failure.message
  | (path, .linted violations) => report.record path violations

def Report.ofOutcomes (outcomes : List (String × Outcome)) : Report :=
  outcomes.foldl Report.add (.start outcomes.length)

inductive LogLevel where
  | off
  | error
  | warn
  | info
  | debug
deriving DecidableEq, Repr

namespace LogLevel

def rank : LogLevel → Nat
  | off => 0
  | error => 1
  | warn => 2
  | info => 3
  | debug => 4

def ofName? : String → Option LogLevel
  | "off" => some off
  | "error" => some error
  | "warn" => some warn
  | "info" => some info
  | "debug" => some debug
  | _ => none

end LogLevel

/-- What a run tells about its progress. -/
inductive Event where
  | discovered (root : Bytes) (files : Nat)
  | passedOver (path : String)
  | skipped (path : String) (failure : PathFailure)
  | finished (linted skipped errors : Nat)
deriving DecidableEq, Repr

namespace Event

def level : Event → LogLevel
  | discovered .. => .info
  | passedOver .. => .debug
  | skipped .. => .warn
  | finished .. => .info

def message : Event → String
  | discovered root files => s!"discovered stylesheets root={shown root} files={files}"
  | passedOver path => s!"no role, skipping path={path}"
  | skipped path failure => s!"skipping file error={loadMessage path failure}"
  | finished linted failed errors =>
    s!"lint finished linted={linted} skipped={failed} errors={errors}"

/-- The files without a role are told first, since no file is loaded before all have a role. -/
def ofOutcomes (root : Bytes) (outcomes : List (String × Outcome)) : List Event :=
  let report := Report.ofOutcomes outcomes
  let left := outcomes.filterMap fun
    | (path, .withoutRole) => some (passedOver path)
    | _ => none
  let failed := outcomes.filterMap fun
    | (path, .unreadable failure) => some (skipped path failure)
    | _ => none
  discovered root outcomes.length :: left ++ failed ++
    [finished report.linted report.skipped.length report.errorCount]

end Event

/-- What a run is asked to do: the directory it starts from and the extension of the files it
looks for, without the dot. -/
structure Config where
  root : Bytes
  ext : String
deriving DecidableEq, Repr

namespace Config

def defaultExt : String := "scss"

def ofRoot (root : Bytes) : Config := ⟨root, defaultExt⟩

/-- Look for another extension. Dots in front of it are left out. -/
def withExt (config : Config) (ext : String) : Config :=
  { config with ext := String.ofList (ext.toList.dropWhile (· == '.')) }

end Config

/-- A finished run. -/
structure Run where
  report : Report
  log : List Event
deriving DecidableEq, Repr

/-- Lint the files of a source. Without the list of files there is no run. -/
def Source.run (source : Source) (config : Config) : Except RunError Run :=
  source.paths.map fun paths =>
    let outcomes := source.outcomes config.ext paths
    { report := .ofOutcomes outcomes, log := Event.ofOutcomes config.root outcomes }

end SheetLint
