/-
  PlZero/Diagnostic/Basic.lean
  ============================
  **What can be wrong with a program.**  A `Problem` is a cause, and its wording is
  `Problem.message`.  A `Diagnostic` is a problem at a place.

  A broken assertion is a problem of the front end itself: a grammar rule asked
  for a token that it had not looked at, or closed a rule that was not open.
-/
import PlZero.Token.Basic

namespace PlZero

/-- An internal check, as it is worded when it fails. -/
inductive Assertion
  | noTokens
  | identifierExpected (found : Token)
  | numberExpected (found : Token)
  | kindExpected (kind : Kind) (found : Token)
  | startExpected (rule : String) (found : Token)
  | ruleMismatch (ended : String) (innermost : Option String)
  | predefinedScopeLeft
  | stated (text : String)
  deriving DecidableEq, Repr

/-- The wording of an internal check. -/
def Assertion.text : Assertion → String
  | noTokens => "token source produced no tokens"
  | identifierExpected t => "identifier expected, found " ++ t.text
  | numberExpected t => "number expected, found " ++ t.text
  | kindExpected k t => "expecting " ++ k.spelling ++ ", found " ++ t.text
  | startExpected rule t => rule ++ " cannot start with " ++ t.text
  | ruleMismatch ended innermost =>
    "end of rule " ++ ended ++ " does not match begin of rule " ++ innermost.getD "None"
  | predefinedScopeLeft => "leave_scope called on the predefined scope"
  | stated text => text

/-- What a declaration introduces. -/
inductive Declared
  | constantName
  | typeName
  | variableName
  | procedureName
  deriving DecidableEq, Repr

/-- How a message calls what a declaration introduces. -/
def Declared.title : Declared → String
  | constantName => "Constant"
  | typeName => "Type"
  | variableName => "Variable"
  | procedureName => "Procedure"

/-- The cause of a diagnostic. -/
inductive Problem
  | illegalCharacter (c : Char)
  | integerTooLarge
  | expecting (kind : Kind)
  | cannotStart (rule : String) (found : Token)
  | cannotFollow (found : Token) (rule : String)
  | alreadyDeclared (what : Declared) (name : String)
  | unequalAssignment
  | expressionTooDeep
  | programTooDeep
  | unreachable (rule : String)
  | broken (assertion : Assertion)
  | stated (text : String)
  deriving DecidableEq, Repr

/-- The wording of a problem. -/
def Problem.message : Problem → String
  | illegalCharacter c => s!"illegal character '{c}'"
  | integerTooLarge => "integer too large"
  | expecting k => "expecting " ++ k.spelling
  | cannotStart rule t => rule ++ " cannot start with " ++ t.text
  | cannotFollow t rule => t.text ++ " cannot follow " ++ rule
  | alreadyDeclared what name =>
    what.title ++ " identifier " ++ name ++ " already declared in this scope"
  | unequalAssignment =>
    "number of variables doesn't match number of expressions in assignment"
  | expressionTooDeep => "expression nested too deeply"
  | programTooDeep => "program nested too deeply"
  | unreachable rule => "unreachable branch in " ++ rule
  | broken assertion => "Assertion failed! " ++ assertion.text
  | stated text => text

/-- Whether work went on after a diagnostic. -/
inductive Severity
  | error
  | fatal
  deriving DecidableEq, Repr

/-- How a listing calls a severity. -/
def Severity.title : Severity → String
  | error => "Error"
  | fatal => "Fatal"

/-- A problem at a place. -/
structure Diagnostic where
  severity : Severity
  problem : Problem
  location : Location
  deriving DecidableEq, Repr

namespace Diagnostic

/-- The text shown to the user. -/
def message (d : Diagnostic) : String := d.problem.message

/-- A diagnostic as it stands in a listing. -/
def text (d : Diagnostic) : String := d.severity.title ++ ": " ++ d.message

/-- Diagnostics are listed by line and column; those without a place come first. -/
def key (d : Diagnostic) : Int × Int :=
  if d.location.isKnown then (d.location.line, d.location.column) else (0, 0)

/-- Whether one diagnostic may stand before another in a listing. -/
def precedes (d e : Diagnostic) : Bool :=
  let (dl, dc) := d.key
  let (el, ec) := e.key
  decide (dl < el ∨ dl = el ∧ dc ≤ ec)

end Diagnostic

end PlZero
