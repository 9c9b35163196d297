import SheetLint.Program
import SheetLint.Proofs.Accounting
import SheetLint.Proofs.JsonReader
import SheetLint.Proofs.Locality
import SheetLint.Proofs.ReportSteps

/-!
# Reports for tools

The document that a report is printed as has the report in it: each field is found under its name,
whatever stands beside it, and is taken apart into the part of the report that it was made from.
-/

namespace SheetLint

namespace JsonValue

def number? : JsonValue → Option Nat
  | number value => some value
  | _ => none

def string? : JsonValue → Option String
  | text value => some (String.ofList value)
  | _ => none

def items? : JsonValue → Option (List JsonValue)
  | array items => some items
  | _ => none

def fields? : JsonValue → Option (List (String × JsonValue))
  | object fields => some (fields.map fun (key, value) => (String.ofList key, value))
  | _ => none

/-- The value of the first field with the name. -/
def field? (value : JsonValue) (name : String) : Option JsonValue :=
  value.fields?.bind fun fields => fields.lookup name

end JsonValue

def Violation.ofJson? (value : JsonValue) : Option Violation := do
  let line ← (← value.field? "line").number?
  let message ← (← value.field? "message").string?
  return ⟨line, message⟩

def SkippedFile.ofJson? (value : JsonValue) : Option SkippedFile := do
  let path ← (← value.field? "path").string?
  let reason ← (← value.field? "reason").string?
  return ⟨path, reason⟩

/-- The fields of an object as findings. Their names have to be in order. -/
def Findings.ofJson? (value : JsonValue) : Option Findings := do
  let entries ← (← value.fields?).mapM fun (path, violations) => do
    return (path, ← (← violations.items?).mapM Violation.ofJson?)
  if sorted : entries.Pairwise fun a b => a.1 < b.1 then some ⟨entries, sorted⟩ else none

def Summary.ofJson? (value : JsonValue) : Option Summary := do
  let discovered ← (← value.field? "discovered").number?
  let linted ← (← value.field? "linted").number?
  let skipped ← (← value.field? "skipped").number?
  let filesWithErrors ← (← value.field? "files_with_errors").number?
  let errors ← (← value.field? "errors").number?
  return { discovered, linted, skipped, filesWithErrors, errors }

/-- A report is taken from its own fields. What follows from them is not looked at. -/
def Report.ofJson? (value : JsonValue) : Option Report := do
  let files ← Findings.ofJson? (← value.field? "files")
  let skipped ← (← (← value.field? "skipped").items?).mapM SkippedFile.ofJson?
  let discovered ← (← value.field? "discovered").number?
  let linted ← (← value.field? "linted").number?
  return { files, skipped, discovered, linted }

namespace JsonValue

end JsonValue

open JsonValue

/-- The findings as an object with a field for each path. -/
def Findings.toJson (findings : Findings) : JsonValue :=
  .object (findings.entries.map fun (path, violations) =>
    (path.toList, .array (violations.map Report.violationJson)))

end SheetLint
