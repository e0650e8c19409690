/-
  PlZero/Tree/Expression.lean
  ===========================
  **Expressions.**  A condition is an expression too: a comparison is an operator
  like any other.  `Expression.error` stands where an expression could not be read.
-/
import PlZero.Location

namespace PlZero

/-- An operator of an expression. -/
inductive Operator
  | add | sub | mul | div | neg
  | equals | notEquals | less | greater | lessEquals | greaterEquals
  deriving DecidableEq, Repr, Inhabited

namespace Operator

/-- Every operator. -/
def all : List Operator :=
  [add, sub, mul, div, neg, equals, notEquals, less, greater, lessEquals, greaterEquals]

/-- The written form of an operator. -/
def text : Operator → String
  | add => "+" | sub => "-" | mul => "*" | div => "/" | neg => "-"
  | equals => "=" | notEquals => "!=" | less => "<" | greater => ">"
  | lessEquals => "<=" | greaterEquals => ">="

/-- The name by which an operator is referred to. -/
def name : Operator → String
  | add => "ADD" | sub => "SUB" | mul => "MUL" | div => "DIV" | neg => "NEG"
  | equals => "EQUALS" | notEquals => "NEQUALS" | less => "LESS" | greater => "GREATER"
  | lessEquals => "LEQUALS" | greaterEquals => "GEQUALS"

/-- The operator of a given name. -/
def ofName? (name : String) : Option Operator := all.find? fun op => op.name == name

end Operator

/-- An expression. -/
inductive Expression
  | error (location : Location)
  | number (location : Location) (value : Int)
  | identifier (location : Location) (name : String) (scope : Nat)
  | read (location : Location)
  | unary (location : Location) (op : Operator) (operand : Expression)
  | binary (location : Location) (op : Operator) (left right : Expression)
  deriving DecidableEq, Repr, Inhabited

end PlZero
