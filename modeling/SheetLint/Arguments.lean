import SheetLint.Text.Printable

/-!
# The arguments of the command line

Arguments are read from left to right, and the first one that is wrong, or that asks for the help
or the version, ends the reading. A value is taken up only when the reading has got past it, with
the next argument that is understood or at the end, so a value that cannot be taken up gives way to
an argument behind it that is not understood at all. After a double dash every argument is a path.
-/

namespace SheetLint

open Text

/-- The options that take no value. -/
inductive Switch where
  | json
  | verbose
  | help
  | version
deriving DecidableEq, Repr

namespace Switch

def long : Switch → String
  | json => "--json"
  | verbose => "--verbose"
  | help => "--help"
  | version => "--version"

def ofLong? (name : List Char) : Option Switch :=
  if name = "json".toList then some json
  else if name = "verbose".toList then some verbose
  else if name = "help".toList then some help
  else if name = "version".toList then some version
  else none

def ofShort? : Char → Option Switch
  | 'v' => some verbose
  | 'h' => some help
  | 'V' => some version
  | _ => none

end Switch

inductive ArgumentError where
  | unexpected (argument : String)
  | repeated (name : String)
  | valueMissing (name : String)
  | valueUnexpected (value name : String)
deriving DecidableEq, Repr

/-- The text of an error. What it quotes from the command line is shown without control sequences. -/
def ArgumentError.message : ArgumentError → String
  | unexpected argument => s!"unexpected argument '{printable argument}' found"
  | repeated name => s!"the argument '{name}' cannot be used multiple times"
  | valueMissing name => s!"a value is required for '{name}' but none was supplied"
  | valueUnexpected value name =>
    s!"unexpected value '{printable value}' for '{name}' found; no more were expected"

structure Options where
  path : Option String
  ext : Option String
  json : Bool
  verbose : Bool
deriving DecidableEq, Repr

/-- Why the reading of the arguments ended early. -/
inductive Stop where
  | error (error : ArgumentError)
  | help
  | version
deriving DecidableEq, Repr

/-- A value that is not taken up yet. An extension may still wait for its value. -/
inductive Pending where
  | nothing
  | path (value : String)
  | ext (value : Option String)
deriving DecidableEq, Repr

/-- How far the reading has got. -/
structure ArgumentState where
  options : Options
  pending : Pending
  pathSeen : Bool
  pathsOnly : Bool
deriving DecidableEq, Repr

namespace ArgumentState

def extName : String := "--extension <EXTENSION>"

def pathName : String := "[PATH]"

def start : ArgumentState := ⟨⟨none, none, false, false⟩, .nothing, false, false⟩

def setExt (state : ArgumentState) (value : String) : Except Stop ArgumentState :=
  if state.options.ext.isSome then .error (.error (.repeated extName))
  else .ok { state with options := { state.options with ext := some value } }

/-- Take up the pending value. -/
def settle (state : ArgumentState) : Except Stop ArgumentState :=
  let settled := { state with pending := .nothing }
  match state.pending with
  | .nothing => .ok settled
  | .path value =>
    if value = "" then .error (.error (.valueMissing pathName))
    else .ok { settled with options := { state.options with path := some value } }
  | .ext none => .error (.error (.valueMissing extName))
  | .ext (some value) => settled.setExt value

def switchOn (state : ArgumentState) (switch : Switch) : Except Stop ArgumentState :=
  match state.settle with
  | .error stop => .error stop
  | .ok state =>
    match switch with
    | .help => .error .help
    | .version => .error .version
    | .json =>
      if state.options.json then .error (.error (.repeated switch.long))
      else .ok { state with options := { state.options with json := true } }
    | .verbose =>
      if state.options.verbose then .error (.error (.repeated switch.long))
      else .ok { state with options := { state.options with verbose := true } }

/-- An argument that starts with two dashes and a name, perhaps with a value behind an equals
sign. -/
def readLong (state : ArgumentState) (name : List Char) (value : Option String) :
    Except Stop ArgumentState :=
  if name = "extension".toList then
    match state.settle with
    | .error stop => .error stop
    | .ok state =>
      match value with
      | some value => state.setExt value
      | none => .ok { state with pending := .ext none }
  else
    match Switch.ofLong? name, value with
    | some switch, none => state.switchOn switch
    | some switch, some value => .error (.error (.valueUnexpected value switch.long))
    | none, _ => .error (.error (.unexpected ("--" ++ String.ofList name)))

/-- The letters behind a single dash, each a switch of its own. -/
def readShort (state : ArgumentState) : List Char → Except Stop ArgumentState
  | [] => .ok state
  | letter :: letters =>
    match Switch.ofShort? letter with
    | none => .error (.error (.unexpected (String.ofList ['-', letter])))
    | some switch =>
      match state.switchOn switch with
      | .error stop => .error stop
      | .ok state => state.readShort letters

def readPath (state : ArgumentState) (path : String) : Except Stop ArgumentState :=
  if state.pathSeen then .error (.error (.unexpected path))
  else
    match state.settle with
    | .error stop => .error stop
    | .ok state => .ok { state with pending := .path path, pathSeen := true }

/-- An argument that is no option: the value of an extension that waits for it, or a path. -/
def readPlain (state : ArgumentState) (argument : String) : Except Stop ArgumentState :=
  if state.pending = .ext none then .ok { state with pending := .ext (some argument) }
  else state.readPath argument

/-- The name of a long option and the value behind the first equals sign. -/
def nameAndValue (cs : List Char) : List Char × Option String :=
  match cs.dropWhile (· != '=') with
  | [] => (cs, none)
  | _ :: value => (cs.takeWhile (· != '='), some (String.ofList value))

def read (state : ArgumentState) (argument : String) : Except Stop ArgumentState :=
  if state.pathsOnly then state.readPath argument
  else
    match argument.toList with
    | ['-', '-'] => .ok { state with pathsOnly := true }
    | '-' :: '-' :: cs =>
      let (name, value) := nameAndValue cs
      state.readLong name value
    | ['-'] => state.readPlain argument
    | '-' :: letters => state.readShort letters
    | _ => state.readPlain argument

end ArgumentState

/-- What the arguments ask for. -/
def Options.ofArguments (arguments : List String) : Except Stop Options :=
  match arguments.foldlM ArgumentState.read .start with
  | .error stop => .error stop
  | .ok state => state.settle.map ArgumentState.options

end SheetLint
