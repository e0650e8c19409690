/-
  PlZero/Proofs/Derivation/Clean.lean
  ===================================
  **The tree of a correct program has no placeholders.**  The only placeholders in the tree
  of a derivation are those with which an uneven assignment is padded, and there are none at
  all in its table.
-/
import PlZero.Proofs.Derivation.Table
import PlZero.Proofs.Tree.Clean

namespace PlZero.Derivation

/-! ### Expressions, constants and types -/

mutual

theorem Factor.tree_clean (scope : Nat) : ∀ c : Factor, (c.tree scope).Clean
  | .name _ => trivial
  | .number _ => trivial
  | .parens _ inside _ => inside.tree_clean scope

theorem Factor.chain_clean (scope : Nat) : ∀ (left : PlZero.Expression)
    (more : List (TokenIn multiplicativeKinds × Factor)), left.Clean →
      (Factor.chain scope left more).Clean
  | _, [], h => h
  | _, (_, factor) :: more, h => Factor.chain_clean scope _ more ⟨h, factor.tree_clean scope⟩

theorem Term.tree_clean (scope : Nat) : ∀ c : Term, (c.tree scope).Clean
  | .mk first more => Factor.chain_clean scope _ more (first.tree_clean scope)

theorem Term.chain_clean (scope : Nat) : ∀ (left : PlZero.Expression)
    (more : List (TokenIn additiveKinds × Term)), left.Clean →
      (Term.chain scope left more).Clean
  | _, [], h => h
  | _, (_, term) :: more, h => Term.chain_clean scope _ more ⟨h, term.tree_clean scope⟩

theorem Expression.tree_clean (scope : Nat) : ∀ c : Expression, (c.tree scope).Clean
  | .mk none first more => Term.chain_clean scope _ more (first.tree_clean scope)
  | .mk (some sign) first more => by
    have hfirst := first.tree_clean scope
    rw [Expression.tree]
    split
    · exact Term.chain_clean scope _ more hfirst
    · exact Term.chain_clean scope _ more hfirst

theorem Condition.tree_clean (scope : Nat) : ∀ c : Condition, (c.tree scope).Clean
  | .plain expression => expression.tree_clean scope
  | .compared left _ right => ⟨left.tree_clean scope, right.tree_clean scope⟩

end

theorem Constant.tree_clean (scope : Nat) (c : Constant) : (c.tree scope).Clean := by
  induction c with
  | number t => trivial
  | name t => trivial
  | negated sign operand ih => exact ih

theorem TypeForm.tree_clean (scope : Nat) (c : TypeForm) : (c.tree scope).Clean := by
  cases c with
  | name t => trivial
  | subrange opening lower range upper closing =>
    exact ⟨lower.tree_clean scope, upper.tree_clean scope⟩

/-! ### Statements -/

/-- Sides of the same length are not padded. -/
theorem padded_of_length {α : Type} {filler : α} {n : Nat} {xs : List α} (h : n = xs.length) :
    Grammar.padded filler n xs = xs := by
  rw [Grammar.padded, h, Nat.sub_self, List.replicate_zero, List.append_nil]

theorem Assignment.tree_clean (scope : Nat) (next : Location) {c : Assignment} (h : c.Even) :
    (c.tree scope next).Clean := by
  have hlength : (c.targetTrees scope).length = (c.valueTrees scope).length := by
    simpa [Assignment.targetTrees, Assignment.valueTrees, Assignment.Even] using h
  rw [Assignment.tree, padded_of_length hlength.symm, padded_of_length hlength]
  constructor
  · intro e he
    rcases List.mem_cons.mp he with rfl | he
    · trivial
    · obtain ⟨p, -, rfl⟩ := List.mem_map.mp he
      trivial
  · intro e he
    rcases List.mem_cons.mp he with rfl | he
    · exact c.value.tree_clean scope
    · obtain ⟨p, -, rfl⟩ := List.mem_map.mp he
      exact p.2.tree_clean scope

mutual

theorem Statement.tree_clean (scope : Nat) : ∀ (next : Location) (c : Statement), c.Even →
    (c.tree scope next).Clean
  | next, .assign _, h => Assignment.tree_clean scope next h
  | next, .repeated _ test _ body, h => ⟨test.tree_clean scope, body.tree_clean scope next h⟩
  | next, .choice _ test _ thenBranch _ elseBranch, h =>
    ⟨test.tree_clean scope, thenBranch.tree_clean scope _ h.1,
      elseBranch.tree_clean scope next h.2⟩
  | _, .read _ _, _ => by simp [Statement.tree, PlZero.Statement.Clean, targetTree,
      PlZero.Expression.Clean]
  | _, .write _ value, _ => value.tree_clean scope
  | _, .call _ _ _ _, _ => trivial
  | _, .compound body, h => body.tree_clean scope h
  | _, .skip _, _ => trivial
  | _, .guarded _ first more _, h =>
    ⟨first.tree_clean scope _ h.1, DoBranch.trees_clean scope _ more h.2⟩

theorem CompoundStatement.tree_clean (scope : Nat) : ∀ c : CompoundStatement, c.Even →
    (c.tree scope).Clean
  | .mk _ list _, h => list.tree_clean scope _ h

theorem StatementList.tree_clean (scope : Nat) : ∀ (next : Location) (c : StatementList), c.Even →
    (c.tree scope next).Clean
  | next, .mk first more, h =>
    ⟨first.tree_clean scope _ h.1, StatementList.trees_clean scope next more h.2⟩

theorem StatementList.trees_clean (scope : Nat) : ∀ (next : Location)
    (more : List (TokenOf .semicolon × Statement)), StatementList.EvenMore more →
      PlZero.Statement.AllClean (StatementList.trees scope next more)
  | _, [], _ => trivial
  | next, (_, statement) :: more, h =>
    ⟨statement.tree_clean scope _ h.1, StatementList.trees_clean scope next more h.2⟩

theorem DoBranch.tree_clean (scope : Nat) : ∀ (next : Location) (c : DoBranch), c.Even →
    (c.tree scope next).Clean
  | next, .mk test _ body none, h => ⟨test.tree_clean scope, body.tree_clean scope next h⟩
  | _, .mk test _ body (some _), h => ⟨test.tree_clean scope, body.tree_clean scope _ h⟩

theorem DoBranch.trees_clean (scope : Nat) : ∀ (next : Location)
    (more : List (TokenOf .separator × DoBranch)), DoBranch.EvenMore more →
      Branch.AllClean (DoBranch.trees scope next more)
  | _, [], _ => trivial
  | next, (_, branch) :: more, h =>
    ⟨branch.tree_clean scope _ h.1, DoBranch.trees_clean scope next more h.2⟩

end

/-! ### Tables -/

section

variable {T : SymbolTable} {sign : Kind} {β : Type}

theorem declare_clean {x : String} {l : Location} {m : Meaning} (h : T.Clean) (hm : m.Clean) :
    (outcomeOf T (T.declare x l m)).Clean := by
  unfold SymbolTable.declare
  split
  · exact h
  · exact h.add hm

theorem addConstant_clean (h : T.Clean) (d : Definition .equals Constant) :
    (addConstant T d).Clean := by
  rcases addConstant_cases T d with heq | ⟨value, heq⟩
  · rw [heq]
    exact h
  · rw [heq]
    exact declare_clean h (d.meaning.tree_clean _)

theorem addType_clean (h : T.Clean) (d : Definition .equals TypeForm) : (addType T d).Clean :=
  declare_clean h (d.meaning.tree_clean _)

theorem addVariable_clean (h : T.Clean) (d : Definition .colon (TokenOf .identifier)) :
    (addVariable T d).Clean :=
  declare_clean h trivial

theorem addProcedure_clean (h : T.Clean) (name : Token) : (addProcedure T name).2.Clean := by
  unfold addProcedure SymbolTable.declareProcedure SymbolTable.declare
  split
  · exact h.append trivial
  · exact h.add trivial

theorem foldl_clean {add : SymbolTable → Definition sign β → SymbolTable}
    (hadd : ∀ {T}, T.Clean → ∀ d, (add T d).Clean) (h : T.Clean)
    (ds : List (Definition sign β)) : (ds.foldl add T).Clean := by
  induction ds generalizing T with
  | nil => exact h
  | cons d more ih => exact ih (hadd h d)

end

mutual

theorem Block.table_clean : ∀ (T : SymbolTable) (c : Block), T.Clean → (c.table T).Clean
  | T, .mk declarations _, h => Declaration.tableAll_clean T declarations h

theorem Declaration.table_clean : ∀ (T : SymbolTable) (d : Declaration), T.Clean →
    (d.table T).Clean
  | _, .constantList d, h => foldl_clean addConstant_clean h d.all
  | _, .typeList d, h => foldl_clean addType_clean h d.all
  | _, .variableList d, h => foldl_clean addVariable_clean h d.all
  | T, .procedure _ name _ _ _ block _, h => by
    have hinside := block.table_clean _
      ((addProcedure_clean h name).enter (addProcedure T name).1.index)
    obtain ⟨v, hleave, hentries, -⟩ :=
      block.table_leave (addProcedure T name).2 (addProcedure T name).1.index
    rw [Declaration.table, hleave]
    intro e he
    exact hinside e (hentries ▸ he)

theorem Declaration.tableAll_clean : ∀ (T : SymbolTable) (ds : List Declaration), T.Clean →
    (Declaration.tableAll T ds).Clean
  | _, [], h => h
  | T, d :: more, h => Declaration.tableAll_clean _ more (d.table_clean T h)

end

/-! ### Blocks -/

mutual

theorem Block.tree_clean : ∀ (T : SymbolTable) (c : Block), c.Correct → (c.tree T).Clean
  | T, .mk declarations body, h =>
    ⟨Declaration.procedures_clean T declarations h.2.1, body.tree_clean T.current h.2.2⟩

theorem Declaration.procedures_clean : ∀ (T : SymbolTable) (ds : List Declaration),
    Declaration.AllCorrect ds → Procedure.AllClean (Declaration.procedures T ds)
  | _, [], _ => trivial
  | T, d :: more, h => Procedure.allClean_append (d.procedure?_clean T h.1)
      (Declaration.procedures_clean (d.table T) more h.2)

theorem Declaration.procedure?_clean : ∀ (T : SymbolTable) (d : Declaration), d.Correct →
    Procedure.AllClean (d.procedure? T)
  | _, .constantList _, _ => trivial
  | _, .typeList _, _ => trivial
  | _, .variableList _, _ => trivial
  | _, .procedure _ _ _ _ _ block _, h => ⟨block.tree_clean _ h, trivial⟩

end

end PlZero.Derivation
