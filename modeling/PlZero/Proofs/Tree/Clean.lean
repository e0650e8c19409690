/-
  PlZero/Proofs/Tree/Clean.lean
  =============================
  **Trees and tables without placeholders.**  A tree is clean if no node of it stands for
  something that could not be read, and a table is clean if what its entries stand for is.
-/
import PlZero.Scope.Table
import PlZero.Tree.Program

namespace PlZero

/-! ### Expressions, constants and types -/

/-- No part of an expression is a placeholder. -/
def Expression.Clean : Expression → Prop
  | .error _ => False
  | .number _ _ => True
  | .identifier _ _ _ => True
  | .read _ => True
  | .unary _ _ operand => operand.Clean
  | .binary _ _ left right => left.Clean ∧ right.Clean

/-- A constant is no placeholder and nothing foreign. -/
def Constant.Clean : Constant → Prop
  | .number _ _ _ => True
  | .named _ _ _ => True
  | .negated _ _ operand => operand.Clean
  | .error _ _ => False
  | .foreign _ => False

/-- A type is no placeholder and nothing foreign. -/
def TypeExpr.Clean : TypeExpr → Prop
  | .scalar _ => True
  | .subrange lower upper => lower.Clean ∧ upper.Clean
  | .named _ _ _ => True
  | .reference base => base.Clean
  | .error => False
  | .foreign _ => False

/-! ### Statements and blocks -/

mutual

/-- No part of a statement is a placeholder. -/
def Statement.Clean : Statement → Prop
  | .error _ => False
  | .assign _ targets values => (∀ e ∈ targets, e.Clean) ∧ ∀ e ∈ values, e.Clean
  | .repeated _ condition body => condition.Clean ∧ body.Clean
  | .choice _ condition thenBranch elseBranch =>
    condition.Clean ∧ thenBranch.Clean ∧ elseBranch.Clean
  | .write _ value => value.Clean
  | .call _ _ _ => True
  | .skip _ => True
  | .list _ statements => Statement.AllClean statements
  | .guarded _ branches => Branch.AllClean branches

def Statement.AllClean : List Statement → Prop
  | [] => True
  | s :: rest => s.Clean ∧ Statement.AllClean rest

def Branch.Clean : Branch → Prop
  | .mk _ condition body _ => condition.Clean ∧ body.Clean

def Branch.AllClean : List Branch → Prop
  | [] => True
  | b :: rest => b.Clean ∧ Branch.AllClean rest

end

mutual

def Block.Clean : Block → Prop
  | .mk _ _ procedures body => Procedure.AllClean procedures ∧ body.Clean

def Procedure.Clean : Procedure → Prop
  | .mk _ _ _ block => block.Clean

def Procedure.AllClean : List Procedure → Prop
  | [] => True
  | p :: rest => p.Clean ∧ Procedure.AllClean rest

end

theorem Procedure.allClean_append {ps qs : List Procedure} (hp : Procedure.AllClean ps)
    (hq : Procedure.AllClean qs) : Procedure.AllClean (ps ++ qs) := by
  induction ps with
  | nil => exact hq
  | cons p ps ih => exact ⟨hp.1, ih hp.2⟩

def Program.Clean (p : Program) : Prop := p.block.Clean

/-! ### Tables -/

/-- What an entry stands for has no placeholder in it. -/
def Meaning.Clean : Meaning → Prop
  | .constant tree _ => tree.Clean
  | .type definition => definition.Clean
  | .variableOf base => base.Clean
  | .procedure _ => True

namespace SymbolTable

/-- No entry of a table has a placeholder in it. -/
def Clean (t : SymbolTable) : Prop := ∀ e ∈ t.entries, e.meaning.Clean

variable {t u : SymbolTable} {x : String} {l : Location} {m : Meaning}

theorem Clean.append (h : t.Clean) (hm : m.Clean) : (t.append x l m).2.Clean := by
  intro e he
  rcases Array.mem_push.mp he with he | rfl
  · exact h e he
  · exact hm

theorem Clean.add (h : t.Clean) (hm : m.Clean) : (t.add x l m).2.Clean := by
  intro e he
  rcases Array.mem_push.mp he with he | rfl
  · exact h e he
  · exact hm

theorem Clean.withLocalScope {e : Entry} (h : e.meaning.Clean) (scope : Nat) :
    (withLocalScope scope e).meaning.Clean := by
  unfold SymbolTable.withLocalScope
  split
  · trivial
  · exact h

theorem Clean.enter (h : t.Clean) (owner : Nat) : (t.enter owner).2.Clean := by
  intro e he
  obtain ⟨i, hi⟩ := Array.mem_iff_getElem?.mp he
  have hi' : (t.entries.modify owner (SymbolTable.withLocalScope t.scopes.size))[i]? = some e := hi
  rw [Array.getElem?_modify] at hi'
  split at hi'
  · obtain ⟨e', he', rfl⟩ := Option.map_eq_some_iff.mp hi'
    exact Clean.withLocalScope (h e' (Array.mem_of_getElem? he')) _
  · exact h e (Array.mem_of_getElem? hi')

theorem initial_clean : initial.Clean := by
  have hadded : ∀ (ps : List (String × Meaning)) (t : SymbolTable), t.Clean →
      (∀ p ∈ ps, p.2.Clean) → (ps.foldl (fun t p => (t.add p.1 .unknown p.2).2) t).Clean := by
    intro ps
    induction ps with
    | nil => exact fun _ ht _ => ht
    | cons p ps ih =>
      intro t ht hps
      exact ih _ (ht.add (hps p List.mem_cons_self)) fun q hq => hps q (List.mem_cons_of_mem _ hq)
  refine hadded predefined bare ?_ ?_
  · intro e he
    exact absurd he (Array.not_mem_empty e)
  · simp [predefined, Meaning.Clean, TypeExpr.Clean, Constant.Clean]

end SymbolTable

end PlZero
