/-
  PlZero/Proofs/Derivation/Trees.lean
  ===================================
  **The tree of a program from the trees of its operands.**  `Trees` says which tree each
  condition, expression and constant is read as; `Block.treeIn` and `Block.tableIn` are the
  tree and the table that a program then has.  With the trees that are derived, these are the
  tree and the table that were derived (`Block.treeIn_asDerived`, `Block.tableIn_asDerived`).
-/
import PlZero.Proofs.Derivation.Tree
import PlZero.Proofs.Scope.InScope

namespace PlZero.Derivation

/-- The trees of the operands of a program, each in the scope where the operand stands.  The
    tree of a constant carries the number of that scope. -/
structure Trees where
  condition : Nat → Condition → PlZero.Expression
  expression : Nat → Expression → PlZero.Expression
  constant : Nat → Constant → PlZero.Constant
  inScope : ∀ scope c, (constant scope c).InScope scope

theorem Constant.tree_inScope (scope : Nat) (c : Constant) : (c.tree scope).InScope scope := by
  induction c with
  | number t => rfl
  | name t => rfl
  | negated sign operand ih => exact ⟨rfl, ih⟩

/-- The trees of operands as they are derived. -/
def Trees.asDerived : Trees :=
  ⟨Condition.tree, Expression.tree, Constant.tree, Constant.tree_inScope⟩

variable (V : Trees)

/-! ### Statements -/

def Assignment.valueTreesIn (scope : Nat) (a : Assignment) : List PlZero.Expression :=
  V.condition scope a.value :: a.values.map fun p => V.condition scope p.2

def Assignment.treeIn (scope : Nat) (next : Location) (a : Assignment) : PlZero.Statement :=
  .assign a.sign.val.location
    (Grammar.padded (.error next) (a.valueTreesIn V scope).length (a.targetTrees scope))
    (Grammar.padded (.error next) (a.targetTrees scope).length (a.valueTreesIn V scope))

mutual

def Statement.treeIn (scope : Nat) (next : Location) : Statement → PlZero.Statement
  | .assign assignment => assignment.treeIn V scope next
  | .repeated keyword test _ body =>
    .repeated keyword.val.location (V.condition scope test) (body.treeIn scope next)
  | .choice keyword test _ thenBranch elseSign elseBranch =>
    .choice keyword.val.location (V.condition scope test)
      (thenBranch.treeIn scope elseSign.val.location) (elseBranch.treeIn scope next)
  | .read keyword target =>
    .assign keyword.val.location [targetTree scope target] [.read keyword.val.location]
  | .write keyword value => .write keyword.val.location (V.expression scope value)
  | .call keyword name _ _ => .call keyword.val.location name.val.payload.name scope
  | .compound body => body.treeIn scope
  | .skip keyword => .skip keyword.val.location
  | .guarded keyword first more closing => .guarded keyword.val.location
    (first.treeIn scope (behind closing.val.location more) ::
      DoBranch.treesIn scope closing.val.location more)

def CompoundStatement.treeIn (scope : Nat) : CompoundStatement → PlZero.Statement
  | .mk _ list closing => list.treeIn scope closing.val.location

def StatementList.treeIn (scope : Nat) (next : Location) : StatementList → PlZero.Statement
  | .mk first more => .list first.first.location
    (first.treeIn scope (behind next more) :: StatementList.treesIn scope next more)

def StatementList.treesIn (scope : Nat) (next : Location) :
    List (TokenOf .semicolon × Statement) → List PlZero.Statement
  | [] => []
  | (_, statement) :: more =>
    statement.treeIn scope (behind next more) :: StatementList.treesIn scope next more

def DoBranch.treeIn (scope : Nat) (next : Location) : DoBranch → Branch
  | .mk test _ body none =>
    .mk test.first.location (V.condition scope test) (body.treeIn scope next) false
  | .mk test _ body (some keyword) =>
    .mk test.first.location (V.condition scope test) (body.treeIn scope keyword.val.location)
      true

def DoBranch.treesIn (scope : Nat) (next : Location) :
    List (TokenOf .separator × DoBranch) → List Branch
  | [] => []
  | (_, branch) :: more =>
    branch.treeIn scope (behind next more) :: DoBranch.treesIn scope next more

end

/-! ### Declarations -/

def TypeForm.treeIn (scope : Nat) : TypeForm → TypeExpr
  | .name t => .named t.val.payload.name scope t.val.location
  | .subrange _ lower _ upper _ => .subrange (V.constant scope lower) (V.constant scope upper)

def addConstantIn (t : SymbolTable) (d : Definition .equals Constant) : SymbolTable :=
  match t.declareConstant d.name.val.payload.name d.name.val.location
    (V.constant t.current d.meaning) with
  | .ok outcome => outcomeOf t outcome
  | .error _ => t

def addTypeIn (t : SymbolTable) (d : Definition .equals TypeForm) : SymbolTable :=
  outcomeOf t (t.declareType d.name.val.payload.name d.name.val.location
    (d.meaning.treeIn V t.current))

mutual

def Block.tableIn (t : SymbolTable) : Block → SymbolTable
  | .mk declarations _ => Declaration.tableAllIn t declarations

def Declaration.tableIn (t : SymbolTable) : Declaration → SymbolTable
  | .constantList d => d.all.foldl (addConstantIn V) t
  | .typeList d => d.all.foldl (addTypeIn V) t
  | .variableList d => d.all.foldl addVariable t
  | .procedure _ name _ _ _ block _ =>
    let inside := block.tableIn ((addProcedure t name).2.enter (addProcedure t name).1.index).2
    inside.leave.getD inside

def Declaration.tableAllIn (t : SymbolTable) : List Declaration → SymbolTable
  | [] => t
  | d :: more => Declaration.tableAllIn (d.tableIn t) more

end

mutual

def Block.treeIn (t : SymbolTable) : Block → PlZero.Block
  | .mk declarations body => .mk (body.treeIn V t.current).location t.current
    (Declaration.proceduresIn t declarations) (body.treeIn V t.current)

def Declaration.proceduresIn (t : SymbolTable) : List Declaration → List Procedure
  | [] => []
  | d :: more => d.procedureIn? t ++ Declaration.proceduresIn (d.tableIn V t) more

def Declaration.procedureIn? (t : SymbolTable) : Declaration → List Procedure
  | .constantList _ => []
  | .typeList _ => []
  | .variableList _ => []
  | .procedure keyword name _ _ _ block _ =>
    let added := addProcedure t name
    [.mk keyword.val.location added.1.name added.1.index
      (block.treeIn (added.2.enter added.1.index).2)]

end

def Block.programIn (c : Block) : Program :=
  ⟨(c.treeIn V outermost).location, c.treeIn V outermost⟩

variable {V}

theorem StatementList.treesIn_eq (scope : Nat) (next : Location)
    (more : List (TokenOf .semicolon × Statement)) :
    StatementList.treesIn V scope next more =
      treesBehind (fun l c => Statement.treeIn V scope l c) next more := by
  induction more with
  | nil => rfl
  | cons p more ih =>
    obtain ⟨sign, statement⟩ := p
    rw [StatementList.treesIn, ih, treesBehind]

theorem DoBranch.treesIn_eq (scope : Nat) (next : Location)
    (more : List (TokenOf .separator × DoBranch)) :
    DoBranch.treesIn V scope next more =
      treesBehind (fun l c => DoBranch.treeIn V scope l c) next more := by
  induction more with
  | nil => rfl
  | cons p more ih =>
    obtain ⟨sign, branch⟩ := p
    rw [DoBranch.treesIn, ih, treesBehind]

/-! ### Programs as they are derived -/

open Trees (asDerived)

mutual

theorem Statement.treeIn_asDerived (scope : Nat) : ∀ (next : Location) (c : Statement),
    c.treeIn asDerived scope next = c.tree scope next
  | _, .assign _ => rfl
  | next, .repeated _ _ _ body => by
    rw [Statement.treeIn, Statement.tree, body.treeIn_asDerived scope next]
    rfl
  | next, .choice _ _ _ thenBranch _ elseBranch => by
    rw [Statement.treeIn, Statement.tree, thenBranch.treeIn_asDerived scope,
      elseBranch.treeIn_asDerived scope next]
    rfl
  | _, .read _ _ => rfl
  | _, .write _ _ => rfl
  | _, .call _ _ _ _ => rfl
  | _, .compound body => body.treeIn_asDerived scope
  | _, .skip _ => rfl
  | _, .guarded _ first more _ => by
    rw [Statement.treeIn, Statement.tree, first.treeIn_asDerived scope,
      DoBranch.treesIn_asDerived scope _ more]

theorem CompoundStatement.treeIn_asDerived (scope : Nat) : ∀ c : CompoundStatement,
    c.treeIn asDerived scope = c.tree scope
  | .mk _ list closing => list.treeIn_asDerived scope closing.val.location

theorem StatementList.treeIn_asDerived (scope : Nat) : ∀ (next : Location) (c : StatementList),
    c.treeIn asDerived scope next = c.tree scope next
  | next, .mk first more => by
    rw [StatementList.treeIn, StatementList.tree, first.treeIn_asDerived scope,
      StatementList.treesIn_asDerived scope next more]

theorem StatementList.treesIn_asDerived (scope : Nat) : ∀ (next : Location)
    (more : List (TokenOf .semicolon × Statement)),
      StatementList.treesIn asDerived scope next more = StatementList.trees scope next more
  | _, [] => rfl
  | next, (_, statement) :: more => by
    rw [StatementList.treesIn, StatementList.trees, statement.treeIn_asDerived scope,
      StatementList.treesIn_asDerived scope next more]

theorem DoBranch.treeIn_asDerived (scope : Nat) : ∀ (next : Location) (c : DoBranch),
    c.treeIn asDerived scope next = c.tree scope next
  | next, .mk _ _ body none => by
    rw [DoBranch.treeIn, DoBranch.tree, body.treeIn_asDerived scope next]
    rfl
  | _, .mk _ _ body (some keyword) => by
    rw [DoBranch.treeIn, DoBranch.tree, body.treeIn_asDerived scope keyword.val.location]
    rfl

theorem DoBranch.treesIn_asDerived (scope : Nat) : ∀ (next : Location)
    (more : List (TokenOf .separator × DoBranch)),
      DoBranch.treesIn asDerived scope next more = DoBranch.trees scope next more
  | _, [] => rfl
  | next, (_, branch) :: more => by
    rw [DoBranch.treesIn, DoBranch.trees, branch.treeIn_asDerived scope,
      DoBranch.treesIn_asDerived scope next more]

end

theorem addTypeIn_asDerived : addTypeIn asDerived = addType := by
  funext t d
  obtain ⟨name, sign, _ | _, semicolon⟩ := d <;> rfl

mutual

theorem Block.tableIn_asDerived : ∀ (t : SymbolTable) (c : Block),
    c.tableIn asDerived t = c.table t
  | t, .mk declarations _ => Declaration.tableAllIn_asDerived t declarations

theorem Declaration.tableIn_asDerived : ∀ (t : SymbolTable) (d : Declaration),
    d.tableIn asDerived t = d.table t
  | _, .constantList _ => rfl
  | t, .typeList d => by
    rw [Declaration.tableIn, Declaration.table, addTypeIn_asDerived]
  | _, .variableList _ => rfl
  | t, .procedure _ _ _ _ _ block _ => by
    simp only [Declaration.tableIn, Declaration.table, block.tableIn_asDerived]

theorem Declaration.tableAllIn_asDerived : ∀ (t : SymbolTable) (ds : List Declaration),
    Declaration.tableAllIn asDerived t ds = Declaration.tableAll t ds
  | _, [] => rfl
  | t, d :: more => by
    rw [Declaration.tableAllIn, Declaration.tableAll, d.tableIn_asDerived,
      Declaration.tableAllIn_asDerived _ more]

end

mutual

theorem Block.treeIn_asDerived : ∀ (t : SymbolTable) (c : Block),
    c.treeIn asDerived t = c.tree t
  | t, .mk declarations body => by
    rw [Block.treeIn, Block.tree, body.treeIn_asDerived,
      Declaration.proceduresIn_asDerived t declarations]

theorem Declaration.proceduresIn_asDerived : ∀ (t : SymbolTable) (ds : List Declaration),
    Declaration.proceduresIn asDerived t ds = Declaration.procedures t ds
  | _, [] => rfl
  | t, d :: more => by
    rw [Declaration.proceduresIn, Declaration.procedures, d.procedureIn?_asDerived t,
      d.tableIn_asDerived, Declaration.proceduresIn_asDerived _ more]

theorem Declaration.procedureIn?_asDerived : ∀ (t : SymbolTable) (d : Declaration),
    d.procedureIn? asDerived t = d.procedure? t
  | _, .constantList _ => rfl
  | _, .typeList _ => rfl
  | _, .variableList _ => rfl
  | t, .procedure _ name _ _ _ block _ => by
    simp only [Declaration.procedureIn?, Declaration.procedure?, block.treeIn_asDerived]

end

theorem Block.programIn_asDerived (c : Block) : c.programIn asDerived = c.program := by
  rw [Block.programIn, Block.program, c.treeIn_asDerived]

end PlZero.Derivation
