/-
  PlZero/Scope/Table.lean
  =======================
  **The symbol table**: every scope and every entry of a program, and which scopes
  are open.

  Scope 0 is the predefined scope.  It holds the types `integer` and `boolean`, the
  constants `false` and `true`, and the procedure `<main>`, whose own scope is the
  outermost scope of the program.  A name is resolved from a scope outward; the scope
  is one of the table.  The table reports nothing: a declaration of a name that its
  scope holds already is refused, and what to say about it is for the caller to decide.
  A constant that holds a node of another kind, or a name in a scope that the table
  does not have, cannot be folded, and its declaration fails.
-/
import PlZero.Failure
import PlZero.Scope.Entry

namespace PlZero

/-- The scopes and entries of a program, the innermost open scope, and the open
    scopes around it, nearest first. -/
structure SymbolTable where
  scopes : Array Scope
  entries : Array Entry
  current : Nat
  enclosing : List Nat
  deriving DecidableEq, Repr, Inhabited

namespace SymbolTable

/-! ### Resolving names -/

/-- The entry that a name refers to in a scope of the table, looking outward through
    at most `fuel` scopes. -/
def resolve (t : SymbolTable) (name : String) : Nat → Nat → Option Nat
  | 0, _ => none
  | fuel + 1, scope =>
    match t.scopes[scope]? with
    | none => none
    | some s =>
      match s.find? name with
      | some index => some index
      | none =>
        match s.parent with
        | some parent => t.resolve name fuel parent
        | none => none

/-- The number of the entry that a name refers to in a scope.  The scope around
    scope `i` has a number below `i`, so there are at most `i + 1` to look through. -/
def lookupIndex (t : SymbolTable) (scope : Nat) (name : String) : Option Nat :=
  t.resolve name (scope + 1) scope

/-- The entry that a name refers to in a scope of the table. -/
def lookupIn (t : SymbolTable) (scope : Nat) (name : String) : Option Entry :=
  (t.lookupIndex scope name).bind fun i => t.entries[i]?

/-- The entry that a name refers to in the innermost open scope. -/
def lookup (t : SymbolTable) (name : String) : Option Entry := t.lookupIn t.current name

/-- The entries declared in a scope of the table, in the order of declaration. -/
def entriesIn (t : SymbolTable) (scope : Nat) : List Entry :=
  match t.scopes[scope]? with
  | some s => s.names.filterMap fun p => t.entries[p.2]?
  | none => []

/-- The entries declared in a scope of the table, as an outline shows them. -/
def describeScope (t : SymbolTable) (scope : Int) : List String :=
  (t.entriesIn scope.toNat).map Entry.describe

/-- Whether the innermost open scope itself holds a name. -/
def isDeclared (t : SymbolTable) (name : String) : Bool :=
  match t.scopes[t.current]? with
  | some s => s.declares name
  | none => false

/-! ### Constant folding -/

/-- The value of a constant, if it has one: a number, a name that refers to a
    constant with a value, or the negation of one of these. -/
def evaluate (t : SymbolTable) : Constant → Except Unfoldable (Option Int)
  | .number _ _ value => .ok (some value)
  | .named _ scope name =>
    if scope < t.scopes.size then
      .ok (match t.lookupIn scope name with
        | some { meaning := .constant _ value, .. } => value
        | _ => none)
    else .error (.missingScope scope)
  | .negated _ _ operand =>
    match t.evaluate operand with
    | .ok value => .ok (value.map fun v => -v)
    | .error e => .error e
  | .error _ _ => .ok none
  | .foreign fragment => .error (.unknownNode ⟨.constant, fragment.kindName⟩)

/-! ### Declarations -/

/-- Adds an entry that no name refers to. -/
def append (t : SymbolTable) (name : String) (location : Location) (meaning : Meaning) :
    Entry × SymbolTable :=
  let entry : Entry := ⟨name, location, t.current, t.entries.size, meaning⟩
  (entry, { t with entries := t.entries.push entry })

/-- Adds an entry and lets its name refer to it in the innermost open scope. -/
def add (t : SymbolTable) (name : String) (location : Location) (meaning : Meaning) :
    Entry × SymbolTable :=
  let entry : Entry := ⟨name, location, t.current, t.entries.size, meaning⟩
  (entry, { t with
    entries := t.entries.push entry
    scopes := t.scopes.modify t.current fun s =>
      { s with declared := (name, entry.index) :: s.declared } })

/-- Declares a name, unless the innermost open scope holds it already. -/
def declare (t : SymbolTable) (name : String) (location : Location) (meaning : Meaning) :
    Option (Entry × SymbolTable) :=
  if t.isDeclared name then none else some (t.add name location meaning)

/-- Declares a constant and folds its value. -/
def declareConstant (t : SymbolTable) (name : String) (location : Location) (tree : Constant) :
    Except Unfoldable (Option (Entry × SymbolTable)) :=
  if t.isDeclared name then .ok none
  else match t.evaluate tree with
    | .ok value => .ok (some (t.add name location (.constant tree value)))
    | .error e => .error e

/-- Declares a type. -/
def declareType (t : SymbolTable) (name : String) (location : Location)
    (definition : TypeExpr) : Option (Entry × SymbolTable) :=
  t.declare name location (.type definition)

/-- Declares a variable. -/
def declareVariable (t : SymbolTable) (name : String) (location : Location)
    (base : TypeExpr) : Option (Entry × SymbolTable) :=
  t.declare name location (.variableOf base)

/-- Declares a procedure. -/
def declareProcedure (t : SymbolTable) (name : String) (location : Location) :
    Option (Entry × SymbolTable) :=
  t.declare name location (.procedure none)

/-- Adds a procedure that no name refers to, for the body of a procedure that could
    not be declared. -/
def addDetached (t : SymbolTable) (name : String) (location : Location) :
    Entry × SymbolTable :=
  t.append name location (.procedure none)

/-! ### Opening and closing scopes -/

/-- An entry that knows its own scope, if it is a procedure. -/
def withLocalScope (scope : Nat) (e : Entry) : Entry :=
  match e.meaning with
  | .procedure _ => { e with meaning := .procedure (some scope) }
  | _ => e

/-- Opens a new scope for the body of a procedure, inside the innermost open scope. -/
def enter (t : SymbolTable) (owner : Nat) : Nat × SymbolTable :=
  let index := t.scopes.size
  let level := match t.scopes[t.current]? with
    | some s => s.level + 1
    | none => 0
  (index, { t with
    scopes := t.scopes.push ⟨index, some t.current, some owner, level, []⟩
    entries := t.entries.modify owner (withLocalScope index)
    current := index
    enclosing := t.current :: t.enclosing })

/-- Closes the innermost open scope, unless it is the predefined scope. -/
def leave (t : SymbolTable) : Option SymbolTable :=
  match t.enclosing with
  | [] => none
  | outer :: rest => some { t with current := outer, enclosing := rest }

/-! ### The predefined scope -/

/-- A table whose only scope holds nothing. -/
def bare : SymbolTable := ⟨#[⟨0, none, none, 0, []⟩], #[], 0, []⟩

/-- The name of the procedure that stands for the program. -/
def mainName : String := "<main>"

/-- What the predefined scope holds. -/
def predefined : List (String × Meaning) := [
  ("integer", .type (.scalar "integer")),
  ("boolean", .type (.scalar "boolean")),
  ("false", .constant (.number .unknown 0 0) (some 0)),
  ("true", .constant (.number .unknown 0 1) (some 1)),
  (mainName, .procedure none)]

/-- The table before anything of a program is declared. -/
def initial : SymbolTable :=
  predefined.foldl (fun t p => (t.add p.1 .unknown p.2).2) bare

/-- The entry of the procedure that stands for the program. -/
def mainIndex : Nat := 4

end SymbolTable

end PlZero
