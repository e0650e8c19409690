/-
  PlZero/Proofs/Derivation/Parts.lean
  ===================================
  **The parts of a program**, in the order of the text: its own tokens, its conditions,
  expressions and constants, and between them what is to be complained of where.  What a
  program is written with, what is reported about it and what has to hold of its operands is
  said of each part (`Rendering`), and holds of the program by its list of parts.

  In the rendering `asDerived` an operand stands for the tokens that it derives, and nothing
  is reported about it.
-/
import PlZero.Proofs.Derivation.Complaints
import PlZero.Proofs.Derivation.Depth
import PlZero.Proofs.Derivation.First

namespace PlZero.Derivation

/-- A part of a program: a token of its own, an operand, or what is complained of at a
    place between two tokens. -/
inductive Part
  | token (token : Token)
  | condition (condition : Condition)
  | expression (expression : Expression)
  | constant (constant : Constant)
  | told (complaints : List Diagnostic)

/-! ### The parts of derivations -/

/-- The parts of what stands behind separators. -/
def partsBehind {P : Token → Prop} {γ : Type} (parts : γ → List Part)
    (more : List ({ t // P t } × γ)) : List Part :=
  more.flatMap fun p => .token p.1.val :: parts p.2

def Assignment.parts (a : Assignment) : List Part :=
  .token a.target.val :: (partsBehind (fun t => [.token t.val]) a.targets ++
    .token a.sign.val :: .condition a.value ::
      (partsBehind (fun c => [.condition c]) a.values ++ [.told a.complaints]))

mutual

def Statement.parts : Statement → List Part
  | .assign assignment => assignment.parts
  | .repeated keyword test sign body =>
    .token keyword.val :: .condition test :: .token sign.val :: body.parts
  | .choice keyword test thenSign thenBranch elseSign elseBranch =>
    .token keyword.val :: .condition test :: .token thenSign.val ::
      (thenBranch.parts ++ .token elseSign.val :: elseBranch.parts)
  | .read keyword target => [.token keyword.val, .token target.val]
  | .write keyword value => [.token keyword.val, .expression value]
  | .call keyword name opening closing =>
    [.token keyword.val, .token name.val, .token opening.val, .token closing.val]
  | .compound body => body.parts
  | .skip keyword => [.token keyword.val]
  | .guarded keyword first more closing =>
    .token keyword.val :: (first.parts ++ (DoBranch.partsMore more ++ [.token closing.val]))

def CompoundStatement.parts : CompoundStatement → List Part
  | .mk opening list closing => .token opening.val :: (list.parts ++ [.token closing.val])

def StatementList.parts : StatementList → List Part
  | .mk first more => first.parts ++ StatementList.partsMore more

def StatementList.partsMore : List (TokenOf .semicolon × Statement) → List Part
  | [] => []
  | (sign, statement) :: more =>
    .token sign.val :: (statement.parts ++ StatementList.partsMore more)

def DoBranch.parts : DoBranch → List Part
  | .mk test sign body none => .condition test :: .token sign.val :: body.parts
  | .mk test sign body (some keyword) =>
    .condition test :: .token sign.val :: (body.parts ++ [.token keyword.val])

def DoBranch.partsMore : List (TokenOf .separator × DoBranch) → List Part
  | [] => []
  | (sign, branch) :: more => .token sign.val :: (branch.parts ++ DoBranch.partsMore more)

end

def TypeForm.parts : TypeForm → List Part
  | .name t => [.token t.val]
  | .subrange opening lower range upper closing =>
    [.token opening.val, .constant lower, .token range.val, .constant upper, .token closing.val]

section

variable {sign : Kind} {β : Type} (what : Declared) (meaning : β → List Part)

/-- A name is declared before the semicolon is looked for. -/
def Definition.parts (seen : List String) (d : Definition sign β) : List Part :=
  .token d.name.val :: .token d.sign.val ::
    (meaning d.meaning ++ [.told (redeclared what seen d.name), .token d.semicolon.val])

def Definition.partsAll (seen : List String) : List (Definition sign β) → List Part
  | [] => []
  | d :: more =>
    d.parts what meaning seen ++ Definition.partsAll (nameOf d.name :: seen) more

end

mutual

/-- The parts of a block.  What is complained of depends on the names declared before. -/
def Block.parts : Block → List Part
  | .mk declarations body => Declaration.partsAll [] declarations ++ body.parts

def Declaration.parts (seen : List String) : Declaration → List Part
  | .constantList d => .token d.keyword.val ::
      Definition.partsAll .constantName (fun k => [.constant k]) seen d.all
  | .typeList d => .token d.keyword.val ::
      Definition.partsAll .typeName TypeForm.parts seen d.all
  | .variableList d => .token d.keyword.val ::
      Definition.partsAll .variableName (fun t => [.token t.val]) seen d.all
  | .procedure keyword name opening closing sign block semicolon =>
    .token keyword.val :: .told (redeclared .procedureName seen name) :: .token name.val ::
      .token opening.val :: .token closing.val :: .token sign.val ::
        (block.parts ++ [.token semicolon.val])

def Declaration.partsAll (seen : List String) : List Declaration → List Part
  | [] => []
  | d :: more => d.parts seen ++ Declaration.partsAll (d.names seen) more

end

theorem StatementList.partsMore_eq (more : List (TokenOf .semicolon × Statement)) :
    StatementList.partsMore more = partsBehind Statement.parts more := by
  induction more with
  | nil => rfl
  | cons p more ih =>
    obtain ⟨sign, statement⟩ := p
    simp only [StatementList.partsMore, ih, partsBehind, List.flatMap_cons, List.cons_append]

theorem DoBranch.partsMore_eq (more : List (TokenOf .separator × DoBranch)) :
    DoBranch.partsMore more = partsBehind DoBranch.parts more := by
  induction more with
  | nil => rfl
  | cons p more ih =>
    obtain ⟨sign, branch⟩ := p
    simp only [DoBranch.partsMore, ih, partsBehind, List.flatMap_cons, List.cons_append]

/-- The constant that a part is. -/
def Part.constant? : Part → Option Constant
  | .constant c => some c
  | _ => none

/-- The condition that a part is; an expression is a condition of its own. -/
def Part.condition? : Part → Option Condition
  | .condition c => some c
  | .expression c => some (.plain c)
  | _ => none

/-- The constants of a program: those of its constant definitions and the bounds of its
    subranges. -/
def Block.constants (c : Block) : List Constant := c.parts.filterMap Part.constant?

/-- The conditions and expressions of a program. -/
def Block.conditions (c : Block) : List Condition := c.parts.filterMap Part.condition?

/-! ### Renderings -/

/-- How operands of a sort are written, and what is reported about them. -/
structure Rendered (γ : Type) where
  tokens : γ → List Token
  reports : γ → List Diagnostic

/-- How the operands of a program are written, and what is reported about them. -/
structure Rendering where
  condition : Rendered Condition
  expression : Rendered Expression
  constant : Rendered Constant

/-- Operands as they are derived. -/
def Rendering.asDerived : Rendering :=
  ⟨⟨Condition.tokens, fun _ => []⟩, ⟨Expression.tokens, fun _ => []⟩,
    ⟨Constant.tokens, fun _ => []⟩⟩

def Part.tokens (R : Rendering) : Part → List Token
  | .token t => [t]
  | .condition c => R.condition.tokens c
  | .expression c => R.expression.tokens c
  | .constant c => R.constant.tokens c
  | .told _ => []

def Part.reports (R : Rendering) : Part → List Diagnostic
  | .token _ => []
  | .condition c => R.condition.reports c
  | .expression c => R.expression.reports c
  | .constant c => R.constant.reports c
  | .told ds => ds

namespace Rendering

/-- The tokens of some parts. -/
def tokens (R : Rendering) (ps : List Part) : List Token := ps.flatMap (Part.tokens R)

/-- What is reported about some parts. -/
def reports (R : Rendering) (ps : List Part) : List Diagnostic := ps.flatMap (Part.reports R)

variable (R : Rendering) (p : Part) (ps qs : List Part) {P : Token → Prop} {γ : Type}
  (parts : γ → List Part) (more : List ({ t // P t } × γ))

@[simp] theorem tokens_nil : R.tokens [] = [] := rfl

@[simp] theorem tokens_cons : R.tokens (p :: ps) = p.tokens R ++ R.tokens ps := rfl

@[simp] theorem tokens_append : R.tokens (ps ++ qs) = R.tokens ps ++ R.tokens qs :=
  List.flatMap_append

@[simp] theorem reports_nil : R.reports [] = [] := rfl

@[simp] theorem reports_cons : R.reports (p :: ps) = p.reports R ++ R.reports ps := rfl

@[simp] theorem reports_append : R.reports (ps ++ qs) = R.reports ps ++ R.reports qs :=
  List.flatMap_append

@[simp] theorem tokens_behind : R.tokens (partsBehind parts more) =
    tokensBehind (fun c => R.tokens (parts c)) more := by
  induction more with
  | nil => rfl
  | cons p more ih =>
    simp only [partsBehind, tokensBehind, List.flatMap_cons, tokens_append] at ih ⊢
    rw [ih, tokens_cons]
    rfl

@[simp] theorem reports_behind : R.reports (partsBehind parts more) =
    more.flatMap fun p => R.reports (parts p.2) := by
  induction more with
  | nil => rfl
  | cons p more ih =>
    simp only [partsBehind, List.flatMap_cons, reports_append] at ih ⊢
    rw [ih, reports_cons]
    rfl

end Rendering

/-! ### First tokens -/

section

variable {R : Rendering}

theorem CompoundStatement.rendered_begins (c : CompoundStatement) :
    (R.tokens c.parts).head? = some c.first ∧ c.first.kind = .kwBegin := by
  obtain ⟨opening, list, closing⟩ := c
  exact ⟨rfl, opening.property⟩

theorem Statement.rendered_begins (c : Statement) :
    (R.tokens c.parts).head? = some c.first ∧ c.first.kind ∈ Starts.statement := by
  refine ⟨?_, c.begins.2⟩
  cases c with
  | compound body => exact body.rendered_begins.1
  | _ => rfl

theorem StatementList.rendered_begins (c : StatementList) :
    (R.tokens c.parts).head? = some c.first ∧ c.first.kind ∈ Starts.statement := by
  refine ⟨?_, c.begins.2⟩
  obtain ⟨first, more⟩ := c
  rw [StatementList.parts, R.tokens_append, List.head?_append, first.rendered_begins.1]
  rfl

theorem Declaration.rendered_begins (d : Declaration) (seen : List String) :
    (R.tokens (d.parts seen)).head? = some d.first ∧ d.first.kind ∈ Starts.declaration := by
  refine ⟨?_, d.begins.2⟩
  cases d <;> rfl

theorem Block.rendered_begins (c : Block) :
    (R.tokens c.parts).head? = some c.first ∧ c.first.kind ∈ Starts.block := by
  refine ⟨?_, c.begins.2⟩
  obtain ⟨_ | ⟨d, more⟩, body⟩ := c
  · exact body.rendered_begins.1
  · rw [Block.parts, Declaration.partsAll, R.tokens_append, R.tokens_append, List.head?_append,
      List.head?_append, (d.rendered_begins []).1]
    rfl

end

/-! ### What the parts add up to -/

/-- How deep a part nests. -/
def Part.nesting : Part → Nat
  | .token _ => 0
  | .condition c => c.nesting
  | .expression c => c.nesting
  | .constant c => c.nesting
  | .told _ => 0

/-- Parts add up to the tokens that they derive, to complaints and to a nesting. -/
structure AddUp (ps : List Part) (ts : List Token) (ds : List Diagnostic) (n : Nat) : Prop where
  tokens : Rendering.asDerived.tokens ps = ts
  reports : Rendering.asDerived.reports ps = ds
  nesting : ∀ m, (∀ p ∈ ps, p.nesting ≤ m) ↔ n ≤ m

namespace AddUp

variable {ps qs : List Part} {ts us : List Token} {ds ds' : List Diagnostic} {n m : Nat}

theorem nil : AddUp [] [] [] 0 := ⟨rfl, rfl, by simp⟩

theorem token (t : Token) (h : AddUp ps ts ds n) : AddUp (.token t :: ps) (t :: ts) ds n := by
  refine ⟨congrArg (t :: ·) h.tokens, h.reports, fun m => ?_⟩
  rw [List.forall_mem_cons, h.nesting m]
  exact and_iff_right (Nat.zero_le m)

theorem told (ds : List Diagnostic) (h : AddUp ps ts ds' n) :
    AddUp (.told ds :: ps) ts (ds ++ ds') n := by
  refine ⟨h.tokens, congrArg (ds ++ ·) h.reports, fun m => ?_⟩
  rw [List.forall_mem_cons, h.nesting m]
  exact and_iff_right (Nat.zero_le m)

theorem condition (c : Condition) (h : AddUp ps ts ds n) :
    AddUp (.condition c :: ps) (c.tokens ++ ts) ds (max c.nesting n) := by
  refine ⟨congrArg (c.tokens ++ ·) h.tokens, h.reports, fun m => ?_⟩
  rw [List.forall_mem_cons, h.nesting m, Nat.max_le]
  rfl

theorem constant (c : Constant) (h : AddUp ps ts ds n) :
    AddUp (.constant c :: ps) (c.tokens ++ ts) ds (max c.nesting n) := by
  refine ⟨congrArg (c.tokens ++ ·) h.tokens, h.reports, fun m => ?_⟩
  rw [List.forall_mem_cons, h.nesting m, Nat.max_le]
  rfl

theorem append (h : AddUp ps ts ds n) (h' : AddUp qs us ds' m) :
    AddUp (ps ++ qs) (ts ++ us) (ds ++ ds') (max n m) := by
  refine ⟨by simp [h.tokens, h'.tokens], by simp [h.reports, h'.reports], fun k => ?_⟩
  rw [List.forall_mem_append, h.nesting k, h'.nesting k, Nat.max_le]

/-- Parts with a token behind them. -/
theorem closed (h : AddUp ps ts ds n) (t : Token) :
    AddUp (ps ++ [.token t]) (ts ++ [t]) ds n := by
  have hsum := h.append (nil.token t)
  rwa [List.append_nil, Nat.max_zero] at hsum

/-- Parts behind separators, of which nothing is complained. -/
theorem behind {P : Token → Prop} {γ : Type} {parts : γ → List Part} {tokens : γ → List Token}
    {nesting : γ → Nat} (h : ∀ c, AddUp (parts c) (tokens c) [] (nesting c))
    (more : List ({ t // P t } × γ)) :
    AddUp (partsBehind parts more) (tokensBehind tokens more) []
      (most (fun p => nesting p.2) more) := by
  induction more with
  | nil => exact nil
  | cons p more ih => exact ((h p.2).token p.1.val).append ih

end AddUp

theorem Assignment.addUp (a : Assignment) : AddUp a.parts a.tokens a.complaints a.nesting := by
  have htargets := AddUp.behind (fun t : TokenOf .identifier => AddUp.nil.token t.val) a.targets
  have hvalues := AddUp.behind (fun c => AddUp.nil.condition c) a.values
  have hsum := (htargets.append ((hvalues.append (AddUp.nil.told a.complaints)).condition
    a.value |>.token a.sign.val)).token a.target.val
  refine ⟨?_, ?_, fun m => (hsum.nesting m).trans ?_⟩
  · rw [Assignment.parts, hsum.tokens]
    simp [Assignment.tokens]
  · rw [Assignment.parts, hsum.reports]
    simp
  · have hzero : most (fun _ : TokenOf .comma × TokenOf .identifier => 0) a.targets = 0 :=
      Nat.le_zero.mp (most_le fun _ _ => Nat.le_refl 0)
    simp [hzero, Assignment.nesting]

mutual

theorem Statement.addUp : ∀ c : Statement, AddUp c.parts c.tokens c.complaints c.nesting
  | .assign assignment => assignment.addUp
  | .repeated keyword test sign body =>
    ((body.addUp.token sign.val).condition test).token keyword.val
  | .choice keyword test thenSign thenBranch elseSign elseBranch =>
    (((thenBranch.addUp.append (elseBranch.addUp.token elseSign.val)).token
      thenSign.val).condition test).token keyword.val
  | .read keyword target => (AddUp.nil.token target.val).token keyword.val
  | .write keyword value => ⟨by simp [Statement.parts, Statement.tokens, Part.tokens,
      Rendering.asDerived], rfl, fun m => by simp [Statement.parts, Statement.nesting,
        Part.nesting]⟩
  | .call keyword name opening closing =>
    (((AddUp.nil.token closing.val).token opening.val).token name.val).token keyword.val
  | .compound body => body.addUp
  | .skip keyword => AddUp.nil.token keyword.val
  | .guarded keyword first more closing =>
    (first.addUp.append ((DoBranch.addUpMore more).closed closing.val)).token keyword.val

theorem CompoundStatement.addUp : ∀ c : CompoundStatement,
    AddUp c.parts c.tokens c.complaints c.nesting
  | .mk opening list closing => (list.addUp.closed closing.val).token opening.val

theorem StatementList.addUp : ∀ c : StatementList,
    AddUp c.parts c.tokens c.complaints c.nesting
  | .mk first more => first.addUp.append (StatementList.addUpMore more)

theorem StatementList.addUpMore : ∀ more : List (TokenOf .semicolon × Statement),
    AddUp (StatementList.partsMore more) (StatementList.tokensMore more)
      (StatementList.complaintsMore more) (StatementList.nestingMore more)
  | [] => AddUp.nil
  | (sign, statement) :: more =>
    (statement.addUp.append (StatementList.addUpMore more)).token sign.val

theorem DoBranch.addUp : ∀ c : DoBranch, AddUp c.parts c.tokens c.complaints c.nesting
  | .mk test sign body none => (body.addUp.token sign.val).condition test
  | .mk test sign body (some keyword) =>
    ((body.addUp.closed keyword.val).token sign.val).condition test

theorem DoBranch.addUpMore : ∀ more : List (TokenOf .separator × DoBranch),
    AddUp (DoBranch.partsMore more) (DoBranch.tokensMore more) (DoBranch.complaintsMore more)
      (DoBranch.nestingMore more)
  | [] => AddUp.nil
  | (sign, branch) :: more =>
    (branch.addUp.append (DoBranch.addUpMore more)).token sign.val

end

theorem TypeForm.addUp (c : TypeForm) : AddUp c.parts c.tokens [] c.nesting := by
  cases c with
  | name t => exact AddUp.nil.token t.val
  | subrange opening lower range upper closing =>
    have hupper := (AddUp.nil.token closing.val).constant upper
    rw [Nat.max_zero] at hupper
    exact ((hupper.token range.val).constant lower).token opening.val

section

variable {sign : Kind} {β : Type} {meaning : β → List Part} {tokens : β → List Token}
  {nesting : β → Nat} (hmeaning : ∀ m, AddUp (meaning m) (tokens m) [] (nesting m))
  (what : Declared)
include hmeaning

theorem Definition.addUp (seen : List String) (d : Definition sign β) :
    AddUp (d.parts what meaning seen) (d.tokens tokens) (redeclared what seen d.name)
      (nesting d.meaning) := by
  have hend := (AddUp.nil.token d.semicolon.val).told (redeclared what seen d.name)
  have hsum := (((hmeaning d.meaning).append hend).token d.sign.val).token d.name.val
  rwa [List.nil_append, List.append_nil, Nat.max_zero] at hsum

theorem Definition.addUpAll (seen : List String) (ds : List (Definition sign β)) :
    AddUp (Definition.partsAll what meaning seen ds) (ds.flatMap (Definition.tokens tokens))
      (redeclaredAll what seen ds) (most (fun x => nesting x.meaning) ds) := by
  induction ds generalizing seen with
  | nil => exact AddUp.nil
  | cons d more ih => exact (Definition.addUp hmeaning what seen d).append (ih _)

end

mutual

/-- The parts of a block add up to what was derived. -/
theorem Block.addUp : ∀ c : Block, AddUp c.parts c.tokens c.complaints c.nesting
  | .mk declarations body => (Declaration.addUpAll [] declarations).append body.addUp

theorem Declaration.addUp (seen : List String) : ∀ d : Declaration,
    AddUp (d.parts seen) d.tokens (d.complaints seen) d.nesting
  | .constantList d => by
    have hconstant : ∀ k : Constant, AddUp [.constant k] k.tokens [] k.nesting := fun k => by
      simpa using AddUp.nil.constant k
    exact (Definition.addUpAll hconstant .constantName seen d.all).token d.keyword.val
  | .typeList d =>
    (Definition.addUpAll TypeForm.addUp .typeName seen d.all).token d.keyword.val
  | .variableList d => by
    have hsum := (Definition.addUpAll (fun t : TokenOf .identifier => AddUp.nil.token t.val)
      .variableName seen d.all).token d.keyword.val
    have hzero : most (fun _ => 0) d.all = 0 :=
      Nat.le_zero.mp (most_le fun _ _ => Nat.le_refl 0)
    rwa [hzero] at hsum
  | .procedure keyword name opening closing sign block semicolon =>
    ((((((block.addUp.closed semicolon.val).token sign.val).token closing.val).token
      opening.val).token name.val).told _).token keyword.val

theorem Declaration.addUpAll (seen : List String) : ∀ ds : List Declaration,
    AddUp (Declaration.partsAll seen ds) (Declaration.tokensAll ds)
      (Declaration.complaintsAll seen ds) (Declaration.nestingAll ds)
  | [] => AddUp.nil
  | d :: more => (d.addUp seen).append (Declaration.addUpAll (d.names seen) more)

end

end PlZero.Derivation
