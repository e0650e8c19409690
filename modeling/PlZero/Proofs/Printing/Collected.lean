/-
  PlZero/Proofs/Printing/Collected.lean
  =====================================
  **The expressions of a tree**, with the scopes they stand in: the sides of assignments, the
  conditions and the values that are written.  In the tree of a program whose tokens can be
  written, each of them is made of such tokens (`Block.expressions_lexed`).
-/
import PlZero.Proofs.Contract.Statements
import PlZero.Proofs.Printing.Derived

namespace PlZero

mutual

/-- The expressions of a statement. -/
def Statement.expressions : Statement → List Expression
  | .error _ => []
  | .assign _ targets values => targets ++ values
  | .repeated _ condition body => condition :: body.expressions
  | .choice _ condition thenBranch elseBranch =>
    condition :: (thenBranch.expressions ++ elseBranch.expressions)
  | .write _ value => [value]
  | .call _ _ _ => []
  | .skip _ => []
  | .list _ statements => Statement.allExpressions statements
  | .guarded _ branches => Branch.allExpressions branches

def Statement.allExpressions : List Statement → List Expression
  | [] => []
  | s :: rest => s.expressions ++ Statement.allExpressions rest

def Branch.expressions : Branch → List Expression
  | .mk _ condition body _ => condition :: body.expressions

def Branch.allExpressions : List Branch → List Expression
  | [] => []
  | b :: rest => b.expressions ++ Branch.allExpressions rest

end

mutual

/-- The expressions of a block and of its procedures, with the scopes they stand in. -/
def Block.expressions : Block → List (Nat × Expression)
  | .mk _ scope procedures body =>
    Procedure.allExpressions procedures ++ body.expressions.map fun e => (scope, e)

def Procedure.expressions : Procedure → List (Nat × Expression)
  | .mk _ _ _ block => block.expressions

def Procedure.allExpressions : List Procedure → List (Nat × Expression)
  | [] => []
  | p :: rest => p.expressions ++ Procedure.allExpressions rest

end

/-- The expressions of a program, with the scopes they stand in. -/
def Program.expressions (p : Program) : List (Nat × Expression) := p.block.expressions

theorem Procedure.allExpressions_append (ps qs : List Procedure) :
    Procedure.allExpressions (ps ++ qs) =
      Procedure.allExpressions ps ++ Procedure.allExpressions qs := by
  induction ps with
  | nil => rfl
  | cons p ps ih =>
    rw [List.cons_append, Procedure.allExpressions, ih, Procedure.allExpressions,
      List.append_assoc]

namespace Derivation

/-- Tokens that can be written. -/
abbrev AllWritable (ts : List Token) : Prop := ∀ t ∈ ts, t.Writable

theorem allWritable_cons {t : Token} {ts : List Token} :
    AllWritable (t :: ts) ↔ t.Writable ∧ AllWritable ts :=
  List.forall_mem_cons

theorem allWritable_append {ts us : List Token} :
    AllWritable (ts ++ us) ↔ AllWritable ts ∧ AllWritable us :=
  List.forall_mem_append

/-! ### Statements -/

theorem targetTree_lexed (scope : Nat) (t : TokenOf .identifier) (h : t.val.Writable) :
    (targetTree scope t.val).Lexed scope :=
  Factor.tree_lexed scope (.name t) (allWritable_cons.mpr ⟨h, List.forall_mem_nil _⟩)

theorem Assignment.expressions_lexed (scope : Nat) (next : Location) (c : Assignment)
    (h : AllWritable c.tokens) : ∀ e ∈ (c.tree scope next).expressions, e.Lexed scope := by
  have htargets : ∀ e ∈ c.targetTrees scope, e.Lexed scope := by
    intro e he
    rcases List.mem_cons.mp he with rfl | he
    · exact targetTree_lexed scope c.target (h _ (by simp [Assignment.tokens]))
    · obtain ⟨p, hp, rfl⟩ := List.mem_map.mp he
      refine targetTree_lexed scope p.2 (h _ ?_)
      simp only [Assignment.tokens, tokensBehind, List.mem_cons, List.mem_append,
        List.mem_flatMap]
      exact .inr (.inl ⟨p, hp, by simp⟩)
  have hvalues : ∀ e ∈ c.valueTrees scope, e.Lexed scope := by
    intro e he
    rcases List.mem_cons.mp he with rfl | he
    · exact c.value.tree_lexed scope fun t ht => h t (by simp [Assignment.tokens, ht])
    · obtain ⟨p, hp, rfl⟩ := List.mem_map.mp he
      refine p.2.tree_lexed scope fun t ht => h t ?_
      simp only [Assignment.tokens, tokensBehind, List.mem_cons, List.mem_append,
        List.mem_flatMap]
      exact .inr (.inr (.inr (.inr ⟨p, hp, by simp [ht]⟩)))
  intro e he
  rcases List.mem_append.mp he with he | he
  · rcases Grammar.mem_padded he with he | rfl
    · exact htargets e he
    · trivial
  · rcases Grammar.mem_padded he with he | rfl
    · exact hvalues e he
    · trivial

mutual

theorem Statement.expressions_lexed (scope : Nat) : ∀ (next : Location) (c : Statement),
    AllWritable c.tokens → ∀ e ∈ (c.tree scope next).expressions, e.Lexed scope
  | next, .assign assignment, h => assignment.expressions_lexed scope next h
  | next, .repeated keyword test sign body, h => by
    simp only [Statement.tokens, allWritable_cons, allWritable_append] at h
    obtain ⟨-, htest, -, hbody⟩ := h
    exact List.forall_mem_cons.mpr
      ⟨test.tree_lexed scope htest, body.expressions_lexed scope next hbody⟩
  | next, .choice keyword test thenSign thenBranch elseSign elseBranch, h => by
    simp only [Statement.tokens, allWritable_cons, allWritable_append] at h
    obtain ⟨-, htest, -, hthen, -, helse⟩ := h
    exact List.forall_mem_cons.mpr ⟨test.tree_lexed scope htest, List.forall_mem_append.mpr
      ⟨thenBranch.expressions_lexed scope _ hthen, elseBranch.expressions_lexed scope next helse⟩⟩
  | _, .read keyword target, h => by
    simp only [Statement.tokens, allWritable_cons] at h
    obtain ⟨-, htarget, -⟩ := h
    simpa [Statement.tree, PlZero.Statement.expressions, PlZero.Expression.Lexed] using
      targetTree_lexed scope target htarget
  | _, .write keyword value, h => by
    simp only [Statement.tokens, allWritable_cons] at h
    simpa [Statement.tree, PlZero.Statement.expressions] using value.tree_lexed scope h.2
  | _, .call _ _ _ _, _ => by simp [Statement.tree, PlZero.Statement.expressions]
  | _, .compound body, h => body.expressions_lexed scope h
  | _, .skip _, _ => by simp [Statement.tree, PlZero.Statement.expressions]
  | _, .guarded keyword first more closing, h => by
    simp only [Statement.tokens, allWritable_cons, allWritable_append] at h
    obtain ⟨-, hfirst, hmore, -⟩ := h
    exact List.forall_mem_append.mpr ⟨first.expressions_lexed scope _ hfirst,
      DoBranch.expressionsMore_lexed scope _ more hmore⟩

theorem CompoundStatement.expressions_lexed (scope : Nat) : ∀ c : CompoundStatement,
    AllWritable c.tokens → ∀ e ∈ (c.tree scope).expressions, e.Lexed scope
  | .mk opening list closing, h => by
    simp only [CompoundStatement.tokens, allWritable_cons, allWritable_append] at h
    exact list.expressions_lexed scope _ h.2.1

theorem StatementList.expressions_lexed (scope : Nat) : ∀ (next : Location) (c : StatementList),
    AllWritable c.tokens → ∀ e ∈ (c.tree scope next).expressions, e.Lexed scope
  | next, .mk first more, h => by
    simp only [StatementList.tokens, allWritable_append] at h
    exact List.forall_mem_append.mpr ⟨first.expressions_lexed scope _ h.1,
      StatementList.expressionsMore_lexed scope next more h.2⟩

theorem StatementList.expressionsMore_lexed (scope : Nat) : ∀ (next : Location)
    (more : List (TokenOf .semicolon × Statement)), AllWritable (StatementList.tokensMore more) →
      ∀ e ∈ PlZero.Statement.allExpressions (StatementList.trees scope next more), e.Lexed scope
  | _, [], _ => by simp [StatementList.trees, PlZero.Statement.allExpressions]
  | next, (sign, statement) :: more, h => by
    simp only [StatementList.tokensMore, allWritable_cons, allWritable_append] at h
    exact List.forall_mem_append.mpr ⟨statement.expressions_lexed scope _ h.2.1,
      StatementList.expressionsMore_lexed scope next more h.2.2⟩

theorem DoBranch.expressions_lexed (scope : Nat) : ∀ (next : Location) (c : DoBranch),
    AllWritable c.tokens → ∀ e ∈ (c.tree scope next).expressions, e.Lexed scope
  | next, .mk test sign body none, h => by
    simp only [DoBranch.tokens, allWritable_cons, allWritable_append] at h
    exact List.forall_mem_cons.mpr
      ⟨test.tree_lexed scope h.1, body.expressions_lexed scope next h.2.2⟩
  | _, .mk test sign body (some keyword), h => by
    simp only [DoBranch.tokens, allWritable_cons, allWritable_append] at h
    exact List.forall_mem_cons.mpr
      ⟨test.tree_lexed scope h.1, body.expressions_lexed scope _ h.2.2.1⟩

theorem DoBranch.expressionsMore_lexed (scope : Nat) : ∀ (next : Location)
    (more : List (TokenOf .separator × DoBranch)), AllWritable (DoBranch.tokensMore more) →
      ∀ e ∈ Branch.allExpressions (DoBranch.trees scope next more), e.Lexed scope
  | _, [], _ => by simp [DoBranch.trees, Branch.allExpressions]
  | next, (sign, branch) :: more, h => by
    simp only [DoBranch.tokensMore, allWritable_cons, allWritable_append] at h
    exact List.forall_mem_append.mpr ⟨branch.expressions_lexed scope _ h.2.1,
      DoBranch.expressionsMore_lexed scope next more h.2.2⟩

end

/-! ### Blocks -/

mutual

theorem Block.expressions_lexed : ∀ (T : SymbolTable) (c : Block), AllWritable c.tokens →
    ∀ x ∈ (c.tree T).expressions, x.2.Lexed x.1
  | T, .mk declarations body, h => by
    simp only [Block.tokens, allWritable_append] at h
    refine List.forall_mem_append.mpr
      ⟨Declaration.procedures_lexed T declarations h.1, ?_⟩
    intro x hx
    obtain ⟨e, he, rfl⟩ := List.mem_map.mp hx
    exact body.expressions_lexed T.current h.2 e he

theorem Declaration.procedures_lexed : ∀ (T : SymbolTable) (ds : List Declaration),
    AllWritable (Declaration.tokensAll ds) →
      ∀ x ∈ Procedure.allExpressions (Declaration.procedures T ds), x.2.Lexed x.1
  | _, [], _ => by simp [Declaration.procedures, Procedure.allExpressions]
  | T, d :: more, h => by
    simp only [Declaration.tokensAll, allWritable_append] at h
    rw [Declaration.procedures, Procedure.allExpressions_append]
    exact List.forall_mem_append.mpr ⟨d.procedure?_lexed T h.1,
      Declaration.procedures_lexed (d.table T) more h.2⟩

theorem Declaration.procedure?_lexed : ∀ (T : SymbolTable) (d : Declaration),
    AllWritable d.tokens → ∀ x ∈ Procedure.allExpressions (d.procedure? T), x.2.Lexed x.1
  | _, .constantList _, _ => by simp [Declaration.procedure?, Procedure.allExpressions]
  | _, .typeList _, _ => by simp [Declaration.procedure?, Procedure.allExpressions]
  | _, .variableList _, _ => by simp [Declaration.procedure?, Procedure.allExpressions]
  | _, .procedure keyword name opening closing sign block semicolon, h => by
    have hblock : AllWritable block.tokens :=
      fun t ht => h t (by simp [Declaration.tokens, ht])
    simpa [Declaration.procedure?, Procedure.allExpressions, Procedure.expressions] using
      block.expressions_lexed _ hblock

end

end Derivation

end PlZero
