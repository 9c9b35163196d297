import SheetLint.Text.Utf8

/-!
# What can go wrong with a tree of files

Failures are kept as causes, and each cause has one text. A file that cannot be read only leaves
that file out of a run. An unusable root and a broken tree end the run, since after either of them
nothing says which files there are.
-/

namespace SheetLint

open Text

/-- The failures of a single operation of the system that this library tells apart. -/
inductive OsError where
  | notFound
  | inputOutput
  | permissionDenied
  | notADirectory
  | isADirectory
  | nameTooLong
  | tooManyLinks
deriving DecidableEq, Repr

namespace OsError

def code : OsError → Nat
  | notFound => 2
  | inputOutput => 5
  | permissionDenied => 13
  | notADirectory => 20
  | isADirectory => 21
  | nameTooLong => 36
  | tooManyLinks => 40

def text : OsError → String
  | notFound => "No such file or directory"
  | inputOutput => "Input/output error"
  | permissionDenied => "Permission denied"
  | notADirectory => "Not a directory"
  | isADirectory => "Is a directory"
  | nameTooLong => "File name too long"
  | tooManyLinks => "Too many levels of symbolic links"

end OsError

/-- Why a path could not be found or read. `unlisted` and `other` come from sources that are no
directory tree. -/
inductive PathFailure where
  | os (error : OsError)
  | nulInPath
  | unlisted
  | other (reason : String)
deriving DecidableEq, Repr

def PathFailure.message : PathFailure → String
  | os error => s!"{error.text} (os error {error.code})"
  | nulInPath => "file name contained an unexpected NUL byte"
  | unlisted => "entity not found"
  | other reason => reason

/-- What is said of a file that could not be loaded. -/
def loadMessage (path : String) (failure : PathFailure) : String :=
  s!"Failed to load {path}: {failure.message}"

/-- Why a walk of a tree stopped. -/
inductive WalkError where
  | unreachable (path : Bytes) (cause : PathFailure)
  | loop (link ancestor : Bytes)
deriving DecidableEq, Repr

namespace WalkError

def message : WalkError → String
  | unreachable path cause => s!"IO error for operation on {shown path}: {cause.message}"
  | loop link ancestor =>
    s!"File system loop found: {shown link} points to an ancestor {shown ancestor}"

/-- The error itself and what caused it, outermost first. -/
def chain : WalkError → List String
  | error@(unreachable _ cause) => [error.message, cause.message]
  | error@(loop ..) => [error.message]

end WalkError

/-- What makes a path unusable as the root of a run. -/
inductive RootProblem where
  | missing
  | notADirectory
deriving DecidableEq, Repr

def RootProblem.message : RootProblem → String
  | missing => "scan root does not exist"
  | notADirectory => "scan root is not a directory"

/-- Why a run ended without a report. -/
inductive RunError where
  | configuration (root : Bytes) (problem : RootProblem)
  | discovery (error : WalkError)
deriving DecidableEq, Repr

namespace RunError

def message : RunError → String
  | configuration root problem => s!"Configuration error: {problem.message} ({shown root})"
  | discovery error => s!"Discovery error: {error.message}"

/-- What lies behind the error, outermost cause first. -/
def causes : RunError → List String
  | configuration .. => []
  | discovery error => error.chain

end RunError

end SheetLint
