/-
  PlZero/Scope/Entry.lean
  =======================
  **Declared names and the scopes that hold them.**  Entries and scopes live in two
  rows and refer to each other by their numbers there.
-/
import PlZero.Tree.Constant

namespace PlZero

/-- What a name was declared as.  A constant has its value if it could be folded.
    A procedure has the number of its own scope once its body has begun.  A
    variable refers to a place that holds a value of its `base` type. -/
inductive Meaning
  | constant (tree : Constant) (value : Option Int)
  | type (definition : TypeExpr)
  | variableOf (base : TypeExpr)
  | procedure (localScope : Option Nat)
  deriving DecidableEq, Repr, Inhabited

/-- A declared name: where it was declared, in which scope, and its own number. -/
structure Entry where
  name : String
  location : Location
  scope : Nat
  index : Nat
  meaning : Meaning
  deriving DecidableEq, Repr, Inhabited

/-- An entry as an outline shows it. -/
def Entry.describe (e : Entry) : String :=
  match e.meaning with
  | .constant _ value =>
    "constant " ++ e.name ++ " = " ++ (match value with | some v => toString v | none => "?")
  | .type definition => "type " ++ e.name ++ " = " ++ definition.text
  | .variableOf base => "variable " ++ e.name ++ ": " ++ base.text
  | .procedure _ => "procedure " ++ e.name

/-- A lexical scope: its own number, the scope around it, the entry of the procedure
    it belongs to, its depth, and its names with the numbers of their entries,
    latest declaration first. -/
structure Scope where
  index : Nat
  parent : Option Nat
  owner : Option Nat
  level : Nat
  declared : List (String × Nat)
  deriving DecidableEq, Repr, Inhabited

namespace Scope

/-- The entry of a name declared in a scope itself. -/
def find? (s : Scope) (name : String) : Option Nat := s.declared.lookup name

/-- Whether a name is declared in a scope itself. -/
def declares (s : Scope) (name : String) : Bool := (s.find? name).isSome

/-- The names of a scope with their entries, in the order of declaration. -/
def names (s : Scope) : List (String × Nat) := s.declared.reverse

end Scope

end PlZero
