import SheetLint.Role
import SheetLint.Shape

/-!
# Which declarations a role allows

One table gives each kind of line in each role its rule: the declaration is out of place, or its
name must have a shape, or nothing is asked of it. A line breaks at most one rule.
-/

namespace SheetLint

/-- What can be wrong with a line. -/
inductive Fault where
  | variableOutsideConfig
  | placeholderMisplaced
  | functionMisplaced
  | mixinMisplaced
  | classMisplaced
  | commentShape
  | variableName
  | placeholderName
  | functionName
  | mixinName
  | className
deriving DecidableEq, Repr

def Fault.message : Fault → String
  | variableOutsideConfig => "define in Config instead"
  | placeholderMisplaced => "placeholder selectors not permitted here"
  | functionMisplaced => "functions not permitted here"
  | mixinMisplaced => "mixins not permitted here"
  | classMisplaced => "class selectors not permitted here"
  | commentShape => "invalid comment format, expected // -- comment --"
  | variableName => "invalid variable name"
  | placeholderName => "invalid placeholder selector name"
  | functionName => "invalid function name"
  | mixinName => "invalid mixin name"
  | className => "invalid class selector name"

inductive Rule where
  | forbidden (fault : Fault)
  | shaped (shape : Shape) (fault : Fault)
deriving DecidableEq, Repr

namespace Rule

def message : Rule → String
  | forbidden fault => fault.message
  | shaped _ fault => fault.message

/-- Functions and mixins follow the same rules with faults of their own. -/
def ofCallable (misplaced misnamed : Fault) : Role → Rule
  | .config | .style => forbidden misplaced
  | .mixin => shaped .anyDeclaration misnamed
  | .layout => shaped .layoutDeclaration misnamed
  | .component => shaped (.ownedDeclaration .component) misnamed
  | .module => shaped (.ownedDeclaration .module) misnamed

/-- The rule for a kind of line in a role, if there is one. -/
def find? : LineKind → Role → Option Rule
  | .comment, .config | .comment, .style => none
  | .comment, _ => some (shaped .sectionComment .commentShape)
  | .todo, _ => none
  | .variableDecl, .style => some (forbidden .variableOutsideConfig)
  | .variableDecl, .config => some (shaped .configVariable .variableName)
  | .variableDecl, .layout => some (shaped .layoutVariable .variableName)
  | .variableDecl, .component => some (shaped (.ownedVariable .component) .variableName)
  | .variableDecl, .module => some (shaped (.ownedVariable .module) .variableName)
  | .variableDecl, .mixin => none
  | .placeholder, .layout => some (shaped .layoutPlaceholder .placeholderName)
  | .placeholder, .component => some (shaped .componentPlaceholder .placeholderName)
  | .placeholder, .module => some (shaped .modulePlaceholder .placeholderName)
  | .placeholder, _ => some (forbidden .placeholderMisplaced)
  | .functionDecl, role => some (ofCallable .functionMisplaced .functionName role)
  | .mixinDecl, role => some (ofCallable .mixinMisplaced .mixinName role)
  | .classSelector, .module => some (shaped .moduleClass .className)
  | .classSelector, _ => some (forbidden .classMisplaced)

/-- What is wrong with the line under the rule, in a file with the namespace `space`. -/
def fault? (rule : Rule) (line : Line) (space : String) : Option Fault :=
  match rule with
  | forbidden fault => some fault
  | shaped shape fault => if shape.accepts line space then none else some fault

end Rule

/-- What is wrong with the line in a file of the role and the namespace `space`. -/
def Line.fault? (line : Line) (role : Role) (space : String) : Option Fault :=
  match line.kind with
  | none => none
  | some kind =>
    match Rule.find? kind role with
    | none => none
    | some rule => rule.fault? line space

end SheetLint
