import SheetLint.Arguments
import SheetLint.Display
import SheetLint.Failure
import SheetLint.Help
import SheetLint.Json
import SheetLint.Line
import SheetLint.Linter
import SheetLint.Main
import SheetLint.Path
import SheetLint.Program
import SheetLint.Proofs.Accounting
import SheetLint.Proofs.BareName
import SheetLint.Proofs.Callable
import SheetLint.Proofs.ClassSelector
import SheetLint.Proofs.Classification
import SheetLint.Proofs.Discovery
import SheetLint.Proofs.FileName
import SheetLint.Proofs.HiddenDirectory
import SheetLint.Proofs.Independence
import SheetLint.Proofs.LeadingToken
import SheetLint.Proofs.LineEnds
import SheetLint.Proofs.Locality
import SheetLint.Proofs.Lookup
import SheetLint.Proofs.Obstacle
import SheetLint.Proofs.Placeholder
import SheetLint.Proofs.Reload
import SheetLint.Proofs.SectionComment
import SheetLint.Proofs.Spelling
import SheetLint.Proofs.Termination
import SheetLint.Proofs.Text.Ascii
import SheetLint.Proofs.Text.Lowercase
import SheetLint.Proofs.Text.Utf8
import SheetLint.Proofs.Variable
import SheetLint.Proofs.Verdict
import SheetLint.Proofs.Walk
import SheetLint.Proofs.Words
import SheetLint.Report
import SheetLint.Role
import SheetLint.Rule
import SheetLint.Shape
import SheetLint.Text.Blank
import SheetLint.Text.CaseTable
import SheetLint.Text.Cut
import SheetLint.Text.Lowercase
import SheetLint.Text.Printable
import SheetLint.Text.Utf8
import SheetLint.Volume
import SheetLint.Walk
import SheetLint.Proofs.Form
import SheetLint.Proofs.Indentation
import SheetLint.Proofs.Ownership
import SheetLint.Proofs.Declarable
import SheetLint.Proofs.ByteLines
import SheetLint.Proofs.ReportSteps
import SheetLint.Proofs.JsonReader
import SheetLint.Proofs.JsonReport
import SheetLint.Proofs.Colour
import SheetLint.Proofs.Rejoining
import SheetLint.Proofs.AsciiNamespace
