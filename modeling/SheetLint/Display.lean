import SheetLint.Json
import SheetLint.Report

/-!
# Reports as they are shown

A report has two forms. One is for people: lines of spans, where a span is a piece of text with the
codes of its colours, so that the coloured and the plain form are the same lines painted in two
ways. The other is one JSON document for tools, which is never coloured.
-/

namespace SheetLint

/-- A piece of a line and its style: the sequences that switch the style on, each with its codes.
No sequence means no style. -/
structure Span where
  style : List (List Nat)
  text : List Char
deriving DecidableEq, Repr

namespace Span

def escape : Char := '\x1b'

def plain (text : String) : Span := ⟨[], text.toList⟩

/-- A text whose style is switched on by one sequence. -/
def styled (codes : List Nat) (text : String) : Span := ⟨[codes], text.toList⟩

/-- The sequence that switches to the given codes. -/
def switch (codes : List Nat) : List Char :=
  escape :: '[' :: List.intercalate [';'] (codes.map (Nat.toDigits 10)) ++ ['m']

/-- The sequence that switches all styles off. -/
def reset : List Char := switch [0]

/-- The text with the style switched on again behind each sequence in it that switches it off. -/
def restyle (style : List Char) : List Char → List Char
  | '\x1b' :: '[' :: '0' :: 'm' :: cs => '\x1b' :: '[' :: '0' :: 'm' :: style ++ restyle style cs
  | c :: cs => c :: restyle style cs
  | [] => []

def paint (coloured : Bool) (span : Span) : List Char :=
  if coloured && !span.style.isEmpty then
    let start := span.style.flatMap switch
    start ++ restyle start span.text ++ reset
  else span.text

end Span

/-- The lines as one text, each with a line end. -/
def paintLines (coloured : Bool) (lines : List (List Span)) : List Char :=
  lines.flatMap fun line => line.flatMap (Span.paint coloured) ++ ['\n']

/-- The decimal digits of a number behind as many blanks as bring them to the width. -/
def alignRight (width n : Nat) : List Char :=
  let digits := Nat.toDigits 10 n
  List.replicate (width - digits.length) ' ' ++ digits

def Summary.text (s : Summary) : String :=
  s!"{s.errors} error(s) in {s.filesWithErrors} file(s) " ++
    s!"(linted {s.linted} of {s.discovered} discovered)"

namespace Report

/-- The width of the widest line number. -/
def numberWidth (violations : List Violation) : Nat :=
  (violations.map fun v => (Nat.toDigits 10 v.line).length).foldr max 0

def violationLine (width : Nat) (v : Violation) : List Span :=
  [.plain "  ", ⟨[[2]], alignRight width v.line⟩, .plain "  ", .styled [31] v.message]

/-- The block of a file: its path and its violations, with the line numbers in one column. -/
def fileBlock (path : String) (violations : List Violation) : List (List Span) :=
  [] :: [.styled [1, 4] path] :: violations.map (violationLine (numberWidth violations))

def skippedLine (file : SkippedFile) : List Span :=
  [.plain "  ", .styled [33] file.path, .plain s!" ({file.reason})"]

def skippedBlock : List SkippedFile → List (List Span)
  | [] => []
  | files => [] :: [.styled [1, 33] "Skipped"] :: files.map skippedLine

def summaryBlock (report : Report) : List (List Span) :=
  [[], [.styled (if report.isClean then [32] else [1, 31]) report.summary.text]]

/-- The report as people read it. -/
def lines (report : Report) : List (List Span) :=
  report.files.entries.flatMap (fun (path, violations) => fileBlock path violations) ++
    skippedBlock report.skipped ++ report.summaryBlock

def render (coloured : Bool) (report : Report) : String :=
  String.ofList (paintLines coloured report.lines)

def violationJson (v : Violation) : JsonValue :=
  .object [("line".toList, .number v.line), ("message".toList, .ofString v.message)]

def skippedJson (file : SkippedFile) : JsonValue :=
  .object [("path".toList, .ofString file.path), ("reason".toList, .ofString file.reason)]

def summaryJson (s : Summary) : JsonValue :=
  .object [
    ("discovered".toList, .number s.discovered),
    ("linted".toList, .number s.linted),
    ("skipped".toList, .number s.skipped),
    ("files_with_errors".toList, .number s.filesWithErrors),
    ("errors".toList, .number s.errors)]

/-- The report and the counts that follow from it as one document. -/
def toJson (report : Report) : JsonValue :=
  .object [
    ("files".toList, .object (report.files.entries.map fun (path, violations) =>
      (path.toList, .array (violations.map violationJson)))),
    ("skipped".toList, .array (report.skipped.map skippedJson)),
    ("discovered".toList, .number report.discovered),
    ("linted".toList, .number report.linted),
    ("summary".toList, summaryJson report.summary)]

end Report

end SheetLint
