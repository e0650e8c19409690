/-
  PlZero/Scope/Register.lean
  ==========================
  **A symbol table with its collector.**  The table is asked one thing after the other.  What it
  refuses is told in its answer and is for whoever asked to report.  Two faults are the caller's.
  To close the predefined scope is a broken assertion, which the collector takes in.  To ask about
  a scope that the table does not have, or to fold a constant that cannot be folded, fails and is
  not reported.  A request that fails leaves the table as it was.
-/
import PlZero.Diagnostic.Collector
import PlZero.Scope.Table

namespace PlZero

namespace SymbolTable

/-- What a name can be declared as. -/
inductive Declaration
  | constant (tree : Constant)
  | type (definition : TypeExpr)
  | variableOf (base : TypeExpr)
  | procedure
  deriving DecidableEq, Repr

/-- Declares a name. -/
def declareAs (t : SymbolTable) (name : String) (location : Location) :
    Declaration → Except Unfoldable (Option (Entry × SymbolTable))
  | .constant tree => t.declareConstant name location tree
  | .type definition => .ok (t.declareType name location definition)
  | .variableOf base => .ok (t.declareVariable name location base)
  | .procedure => .ok (t.declareProcedure name location)

end SymbolTable

/-- A symbol table, and the collector that its broken assertions go to. -/
structure Register where
  table : SymbolTable
  collector : Collector
  deriving Inhabited

namespace Register

/-- What can be asked of a register. -/
inductive Request
  | enter (owner : Nat)
  | leave
  | declare (what : SymbolTable.Declaration) (name : String) (location : Location)
  | detach (name : String) (location : Location)
  | lookup (name : String)
  | lookupIn (scope : Nat) (name : String)
  | entriesIn (scope : Nat)
  | evaluate (tree : Constant)
  deriving DecidableEq, Repr

/-- What a register answers. -/
inductive Answer
  | done
  | scope (index : Nat)
  | entry (found : Option Entry)
  | entries (found : List Entry)
  | value (folded : Option Int)
  deriving DecidableEq, Repr

/-- A register with a new table. -/
def new (c : Collector) : Register := ⟨.initial, c⟩

/-- Takes over the outcome of a declaration. -/
def declared (r : Register) :
    Except Unfoldable (Option (Entry × SymbolTable)) → Except Failure Answer × Register
  | .ok (some (e, t)) => (.ok (.entry (some e)), { r with table := t })
  | .ok none => (.ok (.entry none), r)
  | .error why => (.error why.failure, r)

/-- An answer about one scope, which the table must have. -/
def about (r : Register) (scope : Nat) (answer : Answer) : Except Failure Answer :=
  if scope < r.table.scopes.size then .ok answer else .error (.missingScope scope)

/-- Answers a request. -/
def ask (r : Register) : Request → Except Failure Answer × Register
  | .enter owner =>
    let (index, t) := r.table.enter owner
    (.ok (.scope index), { r with table := t })
  | .leave =>
    match r.table.leave with
    | some t => (.ok .done, { r with table := t })
    | none =>
      let (c, failure) := r.collector.fatal (.broken .predefinedScopeLeft) .unknown
      (.error failure, { r with collector := c })
  | .declare what name l => r.declared (r.table.declareAs name l what)
  | .detach name l => r.declared (.ok (some (r.table.addDetached name l)))
  | .lookup name => (.ok (.entry (r.table.lookup name)), r)
  | .lookupIn scope name => (r.about scope (.entry (r.table.lookupIn scope name)), r)
  | .entriesIn scope => (r.about scope (.entries (r.table.entriesIn scope)), r)
  | .evaluate tree =>
    match r.table.evaluate tree with
    | .ok v => (.ok (.value v), r)
    | .error why => (.error why.failure, r)

/-- The same register with an empty output. -/
def withoutOutput (r : Register) : Register := { r with collector := r.collector.withoutOutput }

end Register

end PlZero
