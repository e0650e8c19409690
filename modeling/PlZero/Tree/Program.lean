/-
  PlZero/Tree/Program.lean
  ========================
  **Statements, blocks and programs.**  A tree is complete even for a program with
  errors: what could not be read is an error statement or an error expression.
  Procedures are referred to by the number of their entry in the symbol table, and
  blocks by the number of their scope.
-/
import PlZero.Tree.Expression

namespace PlZero

mutual

/-- A statement.  A read statement is an assignment of `Expression.read`. -/
inductive Statement
  | error (location : Location)
  | assign (location : Location) (targets values : List Expression)
  | repeated (location : Location) (condition : Expression) (body : Statement)
  | choice (location : Location) (condition : Expression) (thenBranch elseBranch : Statement)
  | write (location : Location) (value : Expression)
  | call (location : Location) (name : String) (scope : Nat)
  | skip (location : Location)
  | list (location : Location) (statements : List Statement)
  | guarded (location : Location) (branches : List Branch)

/-- A branch of a guarded statement; `exits` tells whether it ends with an exit. -/
inductive Branch
  | mk (location : Location) (condition : Expression) (body : Statement) (exits : Bool)

end

namespace Branch

/-- The place of a branch. -/
def location : Branch → Location
  | mk location _ _ _ => location

/-- The condition that guards a branch. -/
def condition : Branch → Expression
  | mk _ condition _ _ => condition

/-- The statements of a branch. -/
def body : Branch → Statement
  | mk _ _ body _ => body

/-- Whether a branch ends with an exit. -/
def exits : Branch → Bool
  | mk _ _ _ exits => exits

end Branch

/-- The place of a statement. -/
def Statement.location : Statement → Location
  | .error l => l
  | .assign l _ _ => l
  | .repeated l _ _ => l
  | .choice l _ _ _ => l
  | .write l _ => l
  | .call l _ _ => l
  | .skip l => l
  | .list l _ => l
  | .guarded l _ => l

mutual

/-- The declarations and the body of a program or a procedure: the number of its
    scope, the procedures declared in it, and its statement. -/
inductive Block
  | mk (location : Location) (scope : Nat) (procedures : List Procedure) (body : Statement)

/-- A procedure with its name, its entry in the symbol table, and its block. -/
inductive Procedure
  | mk (location : Location) (name : String) (entry : Nat) (block : Block)

end

namespace Block

/-- The place of a block. -/
def location : Block → Location
  | mk location _ _ _ => location

/-- The number of the scope of a block. -/
def scope : Block → Nat
  | mk _ scope _ _ => scope

/-- The procedures declared in a block. -/
def procedures : Block → List Procedure
  | mk _ _ procedures _ => procedures

/-- The statement of a block. -/
def body : Block → Statement
  | mk _ _ _ body => body

end Block

namespace Procedure

/-- The place of a procedure. -/
def location : Procedure → Location
  | mk location _ _ _ => location

/-- The name of a procedure. -/
def name : Procedure → String
  | mk _ name _ _ => name

/-- The number of the entry of a procedure. -/
def entry : Procedure → Nat
  | mk _ _ entry _ => entry

/-- The block of a procedure. -/
def block : Procedure → Block
  | mk _ _ _ block => block

end Procedure

/-- A program: its outermost block. -/
structure Program where
  location : Location
  block : Block

end PlZero
