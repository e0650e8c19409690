/-
  PlZero/Proofs/Scope/InScope.lean
  ================================
  **The scope numbers that a tree carries.**  Names in expressions, calls, constants and
  types keep the number of the scope in which they were read.  `InScope k` says of a tree
  that every number in it is `k`.  A fragment of another kind carries numbers that nobody
  can vouch for, and is in no scope.
-/
import PlZero.Scope.Table
import PlZero.Tree.Program

namespace PlZero

variable {k : Nat}

/-! ### Expressions, constants and types -/

def Expression.InScope (k : Nat) : Expression → Prop
  | .error _ => True
  | .number _ _ => True
  | .identifier _ _ scope => scope = k
  | .read _ => True
  | .unary _ _ operand => operand.InScope k
  | .binary _ _ left right => left.InScope k ∧ right.InScope k

def Constant.InScope (k : Nat) : Constant → Prop
  | .number _ scope _ => scope = k
  | .named _ scope _ => scope = k
  | .negated _ scope operand => scope = k ∧ operand.InScope k
  | .error _ scope => scope = k
  | .foreign _ => False

def TypeExpr.InScope (k : Nat) : TypeExpr → Prop
  | .scalar _ => True
  | .subrange lower upper => lower.InScope k ∧ upper.InScope k
  | .named _ scope _ => scope = k
  | .reference base => base.InScope k
  | .error => True
  | .foreign _ => False

def Meaning.InScope (k : Nat) : Meaning → Prop
  | .constant tree _ => tree.InScope k
  | .type definition => definition.InScope k
  | .variableOf base => base.InScope k
  | .procedure _ => True

/-! ### Statements -/

mutual

def Statement.InScope (k : Nat) : Statement → Prop
  | .error _ => True
  | .assign _ targets values => (∀ e ∈ targets, e.InScope k) ∧ ∀ e ∈ values, e.InScope k
  | .repeated _ condition body => condition.InScope k ∧ body.InScope k
  | .choice _ condition thenBranch elseBranch =>
    condition.InScope k ∧ thenBranch.InScope k ∧ elseBranch.InScope k
  | .write _ value => value.InScope k
  | .call _ _ scope => scope = k
  | .skip _ => True
  | .list _ statements => Statement.AllInScope k statements
  | .guarded _ branches => Branch.AllInScope k branches

def Statement.AllInScope (k : Nat) : List Statement → Prop
  | [] => True
  | s :: rest => s.InScope k ∧ Statement.AllInScope k rest

def Branch.InScope (k : Nat) : Branch → Prop
  | .mk _ condition body _ => condition.InScope k ∧ body.InScope k

def Branch.AllInScope (k : Nat) : List Branch → Prop
  | [] => True
  | b :: rest => b.InScope k ∧ Branch.AllInScope k rest

end

theorem Statement.allInScope_iff {ss : List Statement} :
    Statement.AllInScope k ss ↔ ∀ s ∈ ss, s.InScope k := by
  induction ss with
  | nil => simp [Statement.AllInScope]
  | cons s ss ih => simp [Statement.AllInScope, ih]

theorem Branch.allInScope_iff {bs : List Branch} :
    Branch.AllInScope k bs ↔ ∀ b ∈ bs, b.InScope k := by
  induction bs with
  | nil => simp [Branch.AllInScope]
  | cons b bs ih => simp [Branch.AllInScope, ih]

/-! ### Blocks -/

mutual

/-- A block and the blocks of its procedures, each before the blocks inside it. -/
def Block.preorder : Block → List Block
  | .mk l scope procedures body =>
    .mk l scope procedures body :: Procedure.preorderAll procedures

def Procedure.preorder : Procedure → List Block
  | .mk _ _ _ block => block.preorder

def Procedure.preorderAll : List Procedure → List Block
  | [] => []
  | p :: rest => p.preorder ++ Procedure.preorderAll rest

end

theorem Procedure.preorderAll_eq (ps : List Procedure) :
    Procedure.preorderAll ps = ps.flatMap Procedure.preorder := by
  induction ps with
  | nil => rfl
  | cons p ps ih => rw [Procedure.preorderAll, ih, List.flatMap_cons]

@[simp] theorem Procedure.preorderAll_append (ps qs : List Procedure) :
    Procedure.preorderAll (ps ++ qs) = Procedure.preorderAll ps ++ Procedure.preorderAll qs := by
  simp [Procedure.preorderAll_eq]

end PlZero
