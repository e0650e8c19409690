/-
  PlZero/Proofs/Derivation/First.lean
  ===================================
  **The first token of a derivation.**  Nothing that the grammar derives is empty, and the
  kind of its first token is in the start set of the rule that reads it.
-/
import PlZero.Proofs.Derivation.Basic

namespace PlZero.Derivation

/-! ### Expressions and statements -/

def Factor.first : Factor → Token
  | .name t => t
  | .number t => t
  | .parens opening _ _ => opening

def Term.first : Term → Token
  | .mk first _ => first.first

def Expression.first : Expression → Token
  | .mk none first _ => first.first
  | .mk (some sign) _ _ => sign

def Condition.first : Condition → Token
  | .plain expression => expression.first
  | .compared left _ _ => left.first

def CompoundStatement.first : CompoundStatement → Token
  | .mk opening _ _ => opening

def Statement.first : Statement → Token
  | .assign assignment => assignment.target
  | .repeated keyword _ _ _ => keyword
  | .choice keyword _ _ _ _ _ => keyword
  | .read keyword _ => keyword
  | .write keyword _ => keyword
  | .call keyword _ _ _ => keyword
  | .compound body => body.first
  | .skip keyword => keyword
  | .guarded keyword _ _ _ => keyword

def StatementList.first : StatementList → Token
  | .mk first _ => first.first

theorem Factor.begins (c : Factor) :
    c.tokens.head? = some c.first ∧ c.first.kind ∈ Starts.factor := by
  cases c with
  | name t => exact ⟨rfl, t.property ▸ by decide⟩
  | number t => exact ⟨rfl, t.property ▸ by decide⟩
  | parens opening inside closing => exact ⟨rfl, opening.property ▸ by decide⟩

theorem Term.begins (c : Term) :
    c.tokens.head? = some c.first ∧ c.first.kind ∈ Starts.term := by
  obtain ⟨first, more⟩ := c
  obtain ⟨hhead, hstart⟩ := first.begins
  rw [Term.tokens, List.head?_append, hhead]
  exact ⟨rfl, hstart⟩

theorem Expression.begins (c : Expression) :
    c.tokens.head? = some c.first ∧ c.first.kind ∈ Starts.expression := by
  obtain ⟨_ | sign, first, more⟩ := c
  · obtain ⟨hhead, hstart⟩ := first.begins
    rw [Expression.tokens, List.head?_append, hhead]
    exact ⟨rfl, KindSet.mem_union.mpr (.inl hstart)⟩
  · exact ⟨rfl, KindSet.mem_union.mpr (.inr sign.property)⟩

theorem Condition.begins (c : Condition) :
    c.tokens.head? = some c.first ∧ c.first.kind ∈ Starts.condition := by
  cases c with
  | plain expression => exact expression.begins
  | compared left sign right =>
    obtain ⟨hhead, hstart⟩ := left.begins
    rw [Condition.tokens, List.head?_append, hhead]
    exact ⟨rfl, hstart⟩

theorem CompoundStatement.begins (c : CompoundStatement) :
    c.tokens.head? = some c.first ∧ c.first.kind = .kwBegin := by
  obtain ⟨opening, list, closing⟩ := c
  exact ⟨rfl, opening.property⟩

theorem Statement.begins (c : Statement) :
    c.tokens.head? = some c.first ∧ c.first.kind ∈ Starts.statement := by
  cases c with
  | assign assignment => exact ⟨rfl, assignment.target.property ▸ by decide⟩
  | repeated keyword => exact ⟨rfl, keyword.property ▸ by decide⟩
  | choice keyword => exact ⟨rfl, keyword.property ▸ by decide⟩
  | read keyword => exact ⟨rfl, keyword.property ▸ by decide⟩
  | write keyword => exact ⟨rfl, keyword.property ▸ by decide⟩
  | call keyword => exact ⟨rfl, keyword.property ▸ by decide⟩
  | skip keyword => exact ⟨rfl, keyword.property ▸ by decide⟩
  | guarded keyword => exact ⟨rfl, keyword.property ▸ by decide⟩
  | compound body =>
    obtain ⟨hhead, hkind⟩ := body.begins
    exact ⟨hhead, hkind ▸ by decide⟩

theorem StatementList.begins (c : StatementList) :
    c.tokens.head? = some c.first ∧ c.first.kind ∈ Starts.statement := by
  obtain ⟨first, more⟩ := c
  obtain ⟨hhead, hstart⟩ := first.begins
  rw [StatementList.tokens, List.head?_append, hhead]
  exact ⟨rfl, hstart⟩

/-! ### Declarations and blocks -/

def Constant.first : Constant → Token
  | .number t => t
  | .name t => t
  | .negated sign _ => sign

def Declaration.first : Declaration → Token
  | .constantList d => d.keyword
  | .typeList d => d.keyword
  | .variableList d => d.keyword
  | .procedure keyword _ _ _ _ _ _ => keyword

def Block.first : Block → Token
  | .mk [] body => body.first
  | .mk (d :: _) _ => d.first

theorem Constant.begins (c : Constant) :
    c.tokens.head? = some c.first ∧ c.first.kind ∈ Starts.constant := by
  cases c with
  | number t => exact ⟨rfl, t.property ▸ by decide⟩
  | name t => exact ⟨rfl, t.property ▸ by decide⟩
  | negated sign operand => exact ⟨rfl, sign.property ▸ by decide⟩

theorem Declaration.begins (d : Declaration) :
    d.tokens.head? = some d.first ∧ d.first.kind ∈ Starts.declaration := by
  cases d with
  | constantList d => exact ⟨rfl, d.keyword.property ▸ by decide⟩
  | typeList d => exact ⟨rfl, d.keyword.property ▸ by decide⟩
  | variableList d => exact ⟨rfl, d.keyword.property ▸ by decide⟩
  | procedure keyword => exact ⟨rfl, keyword.property ▸ by decide⟩

theorem Block.begins (c : Block) :
    c.tokens.head? = some c.first ∧ c.first.kind ∈ Starts.block := by
  obtain ⟨_ | ⟨d, more⟩, body⟩ := c
  · obtain ⟨hhead, hkind⟩ := body.begins
    exact ⟨hhead, by rw [Block.first, hkind]; decide⟩
  · obtain ⟨hhead, hstart⟩ := d.begins
    rw [Block.tokens, Declaration.tokensAll, List.head?_append, List.head?_append, hhead]
    exact ⟨rfl, KindSet.mem_union.mpr (.inl hstart)⟩

end PlZero.Derivation
