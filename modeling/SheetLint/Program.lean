import SheetLint.Arguments
import SheetLint.Help
import SheetLint.Walk

/-!
# The command-line program

The program as a function of its arguments and its surroundings: the volume it runs in, the current
directory, and the two settings that the environment makes. It answers with an exit status and two
texts. The status is 0 only for a report without violations and without skipped files, or for the
help and the version.
-/

namespace SheetLint

open Text

/-- What the program finds around it. -/
structure Surroundings where
  volume : Volume
  base : Place
  coloured : Bool
  logLevel : Option LogLevel

structure Output where
  status : Nat
  stdout : String
  stderr : String
deriving DecidableEq, Repr

def LogLevel.label : LogLevel → String
  | off => "OFF"
  | error => "ERROR"
  | warn => "WARN"
  | info => "INFO"
  | debug => "DEBUG"

def Event.logLine (event : Event) : String :=
  s!"{event.level.label} scss_lint_rs::analyzer: {event.message}\n"

/-- The log lines of the events that the level lets through. -/
def logText (level : LogLevel) (events : List Event) : String :=
  String.join ((events.filter fun e => e.level.rank ≤ level.rank).map Event.logLine)

/-- A text behind a heading, with blanks under the heading before its second line and all later
ones. -/
def indented (heading : String) (text : String) : String :=
  let under := String.ofList (List.replicate heading.length ' ')
  heading ++ ("\n" ++ under).intercalate ((split '\n' text.toList).map String.ofList)

/-- The causes of an error, outermost first. Several causes are numbered from 0. -/
def causesText : List String → String
  | [] => ""
  | [cause] => "\nCaused by:\n" ++ indented "    " cause ++ "\n"
  | causes =>
    "\nCaused by:\n" ++
      String.join ((causes.zipIdx).map fun (cause, n) => indented s!"    {n}: " cause ++ "\n")

def RunError.report (error : RunError) : String :=
  s!"Error: {error.message}\n" ++ causesText error.causes

def Stop.output (coloured : Bool) : Stop → Output
  | error e => ⟨2, "", s!"error: {e.message}\n"⟩
  | help => ⟨0, helpText coloured, ""⟩
  | version => ⟨0, versionText, ""⟩

def Options.config (options : Options) : Config :=
  (Config.ofRoot (bytesOf (options.path.getD "."))).withExt (options.ext.getD Config.defaultExt)

def Options.logLevel (options : Options) (around : Surroundings) : LogLevel :=
  around.logLevel.getD (if options.verbose then .debug else .warn)

/-- What the report looks like on standard output. -/
def Options.show (options : Options) (around : Surroundings) (report : Report) : String :=
  if options.json then report.toJson.pretty ++ "\n" else report.render around.coloured

def Options.run (options : Options) (around : Surroundings) : Output :=
  match options.config.run around.volume around.base with
  | .error error => ⟨1, "", error.report⟩
  | .ok run =>
    ⟨if run.report.isClean then 0 else 1, options.show around run.report,
      logText (options.logLevel around) run.log⟩

def runProgram (arguments : List String) (around : Surroundings) : Output :=
  match Options.ofArguments arguments with
  | .error stop => stop.output around.coloured
  | .ok options => options.run around

end SheetLint
