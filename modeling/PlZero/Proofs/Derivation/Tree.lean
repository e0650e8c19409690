/-
  PlZero/Proofs/Derivation/Tree.lean
  ==================================
  **What a derivation means**: the tree of a program that is derived by the grammar, and
  the table of what it declares.

  Operators of one rank associate to the left, a leading sign negates the first term alone,
  and parentheses leave no node.  An assignment with unequal sides is padded by placeholders
  at the token behind it, so the tree of a statement depends on where that token is
  (`next`).  The numbers of procedures and of scopes come from the table, to which the
  declarations of a block are added in order.
-/
import PlZero.Grammar.Statements
import PlZero.Proofs.Derivation.First
import PlZero.Scope.Table

namespace PlZero.Derivation

/-! ### Expressions -/

/-- The operator that a token stands for between two operands. -/
def operatorOf : Kind → Operator
  | .plus => .add
  | .minus => .sub
  | .times => .mul
  | .divide => .div
  | .notEquals => .notEquals
  | .less => .less
  | .greater => .greater
  | .lessEquals => .lessEquals
  | .greaterEquals => .greaterEquals
  | _ => .equals

mutual

/-- The tree of a factor in a scope. -/
def Factor.tree (scope : Nat) : Factor → PlZero.Expression
  | .name t => .identifier t.val.location t.val.payload.name scope
  | .number t => .number t.val.location t.val.payload.value
  | .parens _ inside _ => inside.tree scope

/-- An expression that goes on with more factors. -/
def Factor.chain (scope : Nat) (left : PlZero.Expression) :
    List (TokenIn multiplicativeKinds × Factor) → PlZero.Expression
  | [] => left
  | (sign, factor) :: more => Factor.chain scope
    (.binary sign.val.location (operatorOf sign.val.kind) left (factor.tree scope)) more

def Term.tree (scope : Nat) : Term → PlZero.Expression
  | .mk first more => Factor.chain scope (first.tree scope) more

def Term.chain (scope : Nat) (left : PlZero.Expression) :
    List (TokenIn additiveKinds × Term) → PlZero.Expression
  | [] => left
  | (sign, term) :: more => Term.chain scope
    (.binary sign.val.location (operatorOf sign.val.kind) left (term.tree scope)) more

/-- The tree of an expression.  A minus before it negates the first term. -/
def Expression.tree (scope : Nat) : Expression → PlZero.Expression
  | .mk none first more => Term.chain scope (first.tree scope) more
  | .mk (some sign) first more =>
    if sign.val.kind = .minus then
      Term.chain scope (.unary sign.val.location .neg (first.tree scope)) more
    else Term.chain scope (first.tree scope) more

def Condition.tree (scope : Nat) : Condition → PlZero.Expression
  | .plain expression => expression.tree scope
  | .compared left sign right => .binary sign.val.location (operatorOf sign.val.kind)
    (left.tree scope) (right.tree scope)

end

/-- An expression that goes on with more operands. -/
def chainOf {P : Token → Prop} {γ : Type} (tree : γ → PlZero.Expression)
    (left : PlZero.Expression) (more : List ({ t // P t } × γ)) : PlZero.Expression :=
  more.foldl (fun left p =>
    .binary p.1.val.location (operatorOf p.1.val.kind) left (tree p.2)) left

/-! ### Constants and types -/

def Constant.tree (scope : Nat) : Constant → PlZero.Constant
  | .number t => .number t.val.location scope t.val.payload.value
  | .name t => .named t.val.location scope t.val.payload.name
  | .negated sign operand => .negated sign.val.location scope (operand.tree scope)

def TypeForm.tree (scope : Nat) : TypeForm → TypeExpr
  | .name t => .named t.val.payload.name scope t.val.location
  | .subrange _ lower _ upper _ => .subrange (lower.tree scope) (upper.tree scope)

/-! ### Statements -/

/-- The place of the token behind a part: that of the next separator if there is one. -/
def behind {P : Token → Prop} {γ : Type} (next : Location) : List ({ t // P t } × γ) → Location
  | [] => next
  | (sign, _) :: _ => sign.val.location

/-- The trees of parts behind separators, each from the place of the token behind it. -/
def treesBehind {P : Token → Prop} {γ δ : Type} (tree : Location → γ → δ) (next : Location) :
    List ({ t // P t } × γ) → List δ
  | [] => []
  | (_, c) :: more => tree (behind next more) c :: treesBehind tree next more

/-- Where trees do not depend on what stands behind them, there is one for each part. -/
theorem treesBehind_map {P : Token → Prop} {γ δ : Type} (tree : γ → δ) (next : Location)
    (more : List ({ t // P t } × γ)) :
    treesBehind (fun _ => tree) next more = more.map fun p => tree p.2 := by
  induction more with
  | nil => rfl
  | cons p more ih =>
    obtain ⟨sign, c⟩ := p
    rw [treesBehind, ih, List.map_cons]

def targetTree (scope : Nat) (t : Token) : PlZero.Expression :=
  .identifier t.location t.payload.name scope

def Assignment.targetTrees (scope : Nat) (a : Assignment) : List PlZero.Expression :=
  targetTree scope a.target :: a.targets.map fun p => targetTree scope p.2

def Assignment.valueTrees (scope : Nat) (a : Assignment) : List PlZero.Expression :=
  a.value.tree scope :: a.values.map fun p => p.2.tree scope

/-- The tree of an assignment.  The shorter side is padded. -/
def Assignment.tree (scope : Nat) (next : Location) (a : Assignment) : PlZero.Statement :=
  .assign a.sign.val.location
    (Grammar.padded (.error next) (a.valueTrees scope).length (a.targetTrees scope))
    (Grammar.padded (.error next) (a.targetTrees scope).length (a.valueTrees scope))

mutual

/-- The tree of a statement in a scope, with the place of the token behind it. -/
def Statement.tree (scope : Nat) (next : Location) : Statement → PlZero.Statement
  | .assign assignment => assignment.tree scope next
  | .repeated keyword test _ body =>
    .repeated keyword.val.location (test.tree scope) (body.tree scope next)
  | .choice keyword test _ thenBranch elseSign elseBranch =>
    .choice keyword.val.location (test.tree scope)
      (thenBranch.tree scope elseSign.val.location) (elseBranch.tree scope next)
  | .read keyword target =>
    .assign keyword.val.location [targetTree scope target] [.read keyword.val.location]
  | .write keyword value => .write keyword.val.location (value.tree scope)
  | .call keyword name _ _ => .call keyword.val.location name.val.payload.name scope
  | .compound body => body.tree scope
  | .skip keyword => .skip keyword.val.location
  | .guarded keyword first more closing => .guarded keyword.val.location
    (first.tree scope (behind closing.val.location more) ::
      DoBranch.trees scope closing.val.location more)

def CompoundStatement.tree (scope : Nat) : CompoundStatement → PlZero.Statement
  | .mk _ list closing => list.tree scope closing.val.location

def StatementList.tree (scope : Nat) (next : Location) : StatementList → PlZero.Statement
  | .mk first more => .list first.first.location
    (first.tree scope (behind next more) :: StatementList.trees scope next more)

def StatementList.trees (scope : Nat) (next : Location) :
    List (TokenOf .semicolon × Statement) → List PlZero.Statement
  | [] => []
  | (_, statement) :: more =>
    statement.tree scope (behind next more) :: StatementList.trees scope next more

def DoBranch.tree (scope : Nat) (next : Location) : DoBranch → Branch
  | .mk test _ body none =>
    .mk test.first.location (test.tree scope) (body.tree scope next) false
  | .mk test _ body (some keyword) =>
    .mk test.first.location (test.tree scope) (body.tree scope keyword.val.location) true

def DoBranch.trees (scope : Nat) (next : Location) :
    List (TokenOf .separator × DoBranch) → List Branch
  | [] => []
  | (_, branch) :: more =>
    branch.tree scope (behind next more) :: DoBranch.trees scope next more

end

/-! ### Declarations -/

/-- The table after a declaration, which a name that is taken leaves as it was. -/
def outcomeOf (t : SymbolTable) : Option (Entry × SymbolTable) → SymbolTable
  | some r => r.2
  | none => t

def addConstant (t : SymbolTable) (d : Definition .equals Constant) : SymbolTable :=
  match t.declareConstant d.name.val.payload.name d.name.val.location
    (d.meaning.tree t.current) with
  | .ok outcome => outcomeOf t outcome
  | .error _ => t

def addType (t : SymbolTable) (d : Definition .equals TypeForm) : SymbolTable :=
  outcomeOf t (t.declareType d.name.val.payload.name d.name.val.location
    (d.meaning.tree t.current))

def addVariable (t : SymbolTable) (d : Definition .colon (TokenOf .identifier)) : SymbolTable :=
  outcomeOf t (t.declareVariable d.name.val.payload.name d.name.val.location
    (.named d.meaning.val.payload.name t.current d.meaning.val.location))

/-- The entry of a procedure, and the table with it.  A procedure whose name is taken has
    an entry that no name refers to. -/
def addProcedure (t : SymbolTable) (name : Token) : Entry × SymbolTable :=
  (t.declareProcedure name.payload.name name.location).getD
    (t.addDetached name.payload.name name.location)

mutual

/-- The table after the declarations of a block, inside its scope. -/
def Block.table (t : SymbolTable) : Block → SymbolTable
  | .mk declarations _ => Declaration.tableAll t declarations

def Declaration.table (t : SymbolTable) : Declaration → SymbolTable
  | .constantList d => d.all.foldl addConstant t
  | .typeList d => d.all.foldl addType t
  | .variableList d => d.all.foldl addVariable t
  | .procedure _ name _ _ _ block _ =>
    let inside := block.table ((addProcedure t name).2.enter (addProcedure t name).1.index).2
    inside.leave.getD inside

def Declaration.tableAll (t : SymbolTable) : List Declaration → SymbolTable
  | [] => t
  | d :: more => Declaration.tableAll (d.table t) more

end

mutual

/-- The tree of a block, from the table inside its scope. -/
def Block.tree (t : SymbolTable) : Block → PlZero.Block
  | .mk declarations body => .mk (body.tree t.current).location t.current
    (Declaration.procedures t declarations) (body.tree t.current)

def Declaration.procedures (t : SymbolTable) : List Declaration → List Procedure
  | [] => []
  | d :: more => d.procedure? t ++ Declaration.procedures (d.table t) more

/-- The tree of the procedure that is declared, if any. -/
def Declaration.procedure? (t : SymbolTable) : Declaration → List Procedure
  | .constantList _ => []
  | .typeList _ => []
  | .variableList _ => []
  | .procedure keyword name _ _ _ block _ =>
    let added := addProcedure t name
    [.mk keyword.val.location added.1.name added.1.index
      (block.tree (added.2.enter added.1.index).2)]

end

/-- The table inside the scope of a program. -/
def outermost : SymbolTable := (SymbolTable.initial.enter SymbolTable.mainIndex).2

/-- The tree of a program. -/
def Block.program (c : Block) : Program := ⟨(c.tree outermost).location, c.tree outermost⟩

end PlZero.Derivation
