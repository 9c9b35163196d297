import SheetLint.Display

/-!
# The help and the version of the program

The help is a list of lines of spans, as a report is, so it is painted in the same two ways. What is
to be typed as it stands is bold, and a heading is underlined as well.
-/

namespace SheetLint

def versionText : String := "scss-lint-rs 0.1.0\n"

namespace Help

def heading (text : String) : Span := ⟨[[1], [4]], text.toList⟩

def literal (text : String) : Span := .styled [1] text

/-- What the program is for and how it is called. -/
def usage : List (List Span) := [
  [.plain ("Command line interface configuration using `clap`. " ++
    "This struct defines the arguments and flags accepted by the program")],
  [],
  [heading "Usage:", .plain " ", literal "scss-lint-rs", .plain " [OPTIONS] [PATH]"]]

def arguments : List (List Span) := [
  [],
  [heading "Arguments:"],
  [.plain ("  [PATH]  Root directory of the stylesheet tree to lint. " ++
    "Roles are derived from paths relative to this directory, " ++
    "e.g. `component/button.scss` or `config.scss` [default: .]")]]

/-- A switch with a letter of its own. -/
def switchLine (short long text : String) : List Span :=
  [.plain "  ", literal short, .plain ", ", literal long, .plain text]

def options : List (List Span) := [
  [],
  [heading "Options:"],
  [.plain "      ", literal "--extension", .plain (" <EXTENSION>  Extension of stylesheet files. " ++
    "Only files with this extension are discovered; a leading dot is ignored [default: scss]")],
  [.plain "      ", literal "--json", .plain ("                   Output raw JSON. " ++
    "The report and its summary are printed as one JSON object on stdout, " ++
    "which is useful for CI pipelines and editor integrations")],
  switchLine "-v" "--verbose" ("                Log discovery and skipped files to stderr. " ++
    "`RUST_LOG` takes precedence when it is set"),
  switchLine "-h" "--help" "                   Print help",
  switchLine "-V" "--version" "                Print version"]

end Help

def helpText (coloured : Bool) : String :=
  String.ofList (paintLines coloured (Help.usage ++ Help.arguments ++ Help.options))

end SheetLint
