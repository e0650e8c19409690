/-
  PlZero/Proofs/Derivation/Depth.lean
  ===================================
  **How deep a derivation nests**: its parentheses and the signs of its constants
  (`nesting`), and its procedures and statements (`depth`).
-/
import PlZero.Proofs.Derivation.Basic

namespace PlZero.Derivation

/-- The greatest number that a function takes on a list. -/
def most {γ : Type} (f : γ → Nat) (xs : List γ) : Nat := xs.foldr (fun x n => max (f x) n) 0

theorem most_cons {γ : Type} (f : γ → Nat) (x : γ) (xs : List γ) :
    most f (x :: xs) = max (f x) (most f xs) := rfl

theorem le_most {γ : Type} {f : γ → Nat} {x : γ} {xs : List γ} (h : x ∈ xs) : f x ≤ most f xs := by
  induction xs with
  | nil => exact absurd h (by simp)
  | cons y ys ih =>
    rw [most_cons]
    rcases List.mem_cons.mp h with rfl | h
    · exact Nat.le_max_left _ _
    · exact Nat.le_trans (ih h) (Nat.le_max_right _ _)

theorem most_le {γ : Type} {f : γ → Nat} {n : Nat} {xs : List γ} (h : ∀ x ∈ xs, f x ≤ n) :
    most f xs ≤ n := by
  induction xs with
  | nil => exact Nat.zero_le n
  | cons y ys ih =>
    rw [most_cons]
    exact Nat.max_le.mpr ⟨h y List.mem_cons_self, ih fun x hx => h x (List.mem_cons_of_mem _ hx)⟩

/-! ### Parentheses and signs -/

mutual

def Factor.nesting : Factor → Nat
  | .name _ => 0
  | .number _ => 0
  | .parens _ inside _ => inside.nesting + 1

def Factor.nestingMore : List (TokenIn multiplicativeKinds × Factor) → Nat
  | [] => 0
  | (_, factor) :: more => max factor.nesting (Factor.nestingMore more)

def Term.nesting : Term → Nat
  | .mk first more => max first.nesting (Factor.nestingMore more)

def Term.nestingMore : List (TokenIn additiveKinds × Term) → Nat
  | [] => 0
  | (_, term) :: more => max term.nesting (Term.nestingMore more)

def Expression.nesting : Expression → Nat
  | .mk _ first more => max first.nesting (Term.nestingMore more)

def Condition.nesting : Condition → Nat
  | .plain expression => expression.nesting
  | .compared left _ right => max left.nesting right.nesting

end

def Constant.nesting : Constant → Nat
  | .number _ => 0
  | .name _ => 0
  | .negated _ operand => operand.nesting + 1

def TypeForm.nesting : TypeForm → Nat
  | .name _ => 0
  | .subrange _ lower _ upper _ => max lower.nesting upper.nesting

def Definitions.nesting {keyword sign : Kind} {β : Type} (meaning : β → Nat)
    (d : Definitions keyword sign β) : Nat :=
  most (fun x => meaning x.meaning) d.all

def Assignment.nesting (a : Assignment) : Nat :=
  max a.value.nesting (most (fun p => p.2.nesting) a.values)

mutual

def Statement.nesting : Statement → Nat
  | .assign assignment => assignment.nesting
  | .repeated _ test _ body => max test.nesting body.nesting
  | .choice _ test _ thenBranch _ elseBranch =>
    max test.nesting (max thenBranch.nesting elseBranch.nesting)
  | .read _ _ => 0
  | .write _ value => value.nesting
  | .call _ _ _ _ => 0
  | .compound body => body.nesting
  | .skip _ => 0
  | .guarded _ first more _ => max first.nesting (DoBranch.nestingMore more)

def CompoundStatement.nesting : CompoundStatement → Nat
  | .mk _ list _ => list.nesting

def StatementList.nesting : StatementList → Nat
  | .mk first more => max first.nesting (StatementList.nestingMore more)

def StatementList.nestingMore : List (TokenOf .semicolon × Statement) → Nat
  | [] => 0
  | (_, statement) :: more => max statement.nesting (StatementList.nestingMore more)

def DoBranch.nesting : DoBranch → Nat
  | .mk test _ body _ => max test.nesting body.nesting

def DoBranch.nestingMore : List (TokenOf .separator × DoBranch) → Nat
  | [] => 0
  | (_, branch) :: more => max branch.nesting (DoBranch.nestingMore more)

end

mutual

def Block.nesting : Block → Nat
  | .mk declarations body => max (Declaration.nestingAll declarations) body.nesting

def Declaration.nesting : Declaration → Nat
  | .constantList definitions => definitions.nesting Constant.nesting
  | .typeList definitions => definitions.nesting TypeForm.nesting
  | .variableList _ => 0
  | .procedure _ _ _ _ _ block _ => block.nesting

def Declaration.nestingAll : List Declaration → Nat
  | [] => 0
  | d :: more => max d.nesting (Declaration.nestingAll more)

end

theorem Factor.nestingMore_eq (more : List (TokenIn multiplicativeKinds × Factor)) :
    Factor.nestingMore more = most (fun p => p.2.nesting) more := by
  induction more with
  | nil => rfl
  | cons p more ih => rw [Factor.nestingMore, ih, most_cons]

theorem Term.nestingMore_eq (more : List (TokenIn additiveKinds × Term)) :
    Term.nestingMore more = most (fun p => p.2.nesting) more := by
  induction more with
  | nil => rfl
  | cons p more ih => rw [Term.nestingMore, ih, most_cons]

theorem StatementList.nestingMore_eq (more : List (TokenOf .semicolon × Statement)) :
    StatementList.nestingMore more = most (fun p => p.2.nesting) more := by
  induction more with
  | nil => rfl
  | cons p more ih => rw [StatementList.nestingMore, ih, most_cons]

theorem DoBranch.nestingMore_eq (more : List (TokenOf .separator × DoBranch)) :
    DoBranch.nestingMore more = most (fun p => p.2.nesting) more := by
  induction more with
  | nil => rfl
  | cons p more ih => rw [DoBranch.nestingMore, ih, most_cons]

theorem Declaration.nestingAll_eq (declarations : List Declaration) :
    Declaration.nestingAll declarations = most Declaration.nesting declarations := by
  induction declarations with
  | nil => rfl
  | cons d more ih => rw [Declaration.nestingAll, ih, most_cons]

/-! ### Procedures and statements -/

mutual

def Statement.depth : Statement → Nat
  | .repeated _ _ _ body => body.depth + 1
  | .choice _ _ _ thenBranch _ elseBranch => max thenBranch.depth elseBranch.depth + 1
  | .compound body => body.depth + 1
  | .guarded _ first more _ => max first.depth (DoBranch.depthMore more) + 1
  | .assign _ => 1
  | .read _ _ => 1
  | .write _ _ => 1
  | .call _ _ _ _ => 1
  | .skip _ => 1

def CompoundStatement.depth : CompoundStatement → Nat
  | .mk _ list _ => list.depth

def StatementList.depth : StatementList → Nat
  | .mk first more => max first.depth (StatementList.depthMore more)

def StatementList.depthMore : List (TokenOf .semicolon × Statement) → Nat
  | [] => 0
  | (_, statement) :: more => max statement.depth (StatementList.depthMore more)

def DoBranch.depth : DoBranch → Nat
  | .mk _ _ body _ => body.depth

def DoBranch.depthMore : List (TokenOf .separator × DoBranch) → Nat
  | [] => 0
  | (_, branch) :: more => max branch.depth (DoBranch.depthMore more)

end

mutual

def Block.depth : Block → Nat
  | .mk declarations body => max (Declaration.depthAll declarations) body.depth + 1

def Declaration.depth : Declaration → Nat
  | .constantList _ => 0
  | .typeList _ => 0
  | .variableList _ => 0
  | .procedure _ _ _ _ _ block _ => block.depth

def Declaration.depthAll : List Declaration → Nat
  | [] => 0
  | d :: more => max d.depth (Declaration.depthAll more)

end

theorem StatementList.depthMore_eq (more : List (TokenOf .semicolon × Statement)) :
    StatementList.depthMore more = most (fun p => p.2.depth) more := by
  induction more with
  | nil => rfl
  | cons p more ih => rw [StatementList.depthMore, ih, most_cons]

theorem DoBranch.depthMore_eq (more : List (TokenOf .separator × DoBranch)) :
    DoBranch.depthMore more = most (fun p => p.2.depth) more := by
  induction more with
  | nil => rfl
  | cons p more ih => rw [DoBranch.depthMore, ih, most_cons]

theorem Declaration.depthAll_eq (declarations : List Declaration) :
    Declaration.depthAll declarations = most Declaration.depth declarations := by
  induction declarations with
  | nil => rfl
  | cons d more ih => rw [Declaration.depthAll, ih, most_cons]

theorem Statement.depth_pos (c : Statement) : 0 < c.depth := by
  cases c <;> simp [Statement.depth]

theorem Block.depth_pos (c : Block) : 0 < c.depth := by
  obtain ⟨declarations, body⟩ := c
  simp [Block.depth]

end PlZero.Derivation
