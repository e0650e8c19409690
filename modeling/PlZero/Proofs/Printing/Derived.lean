/-
  PlZero/Proofs/Printing/Derived.lean
  ===================================
  **The tokens of a printed form are derived by the grammar**, and the tree of the derivation
  is the expression that was printed, up to places.  A binary operation is a factor, since it
  stands between parentheses; a sign before a factor begins an expression.

  Conversely the tree of a derivation whose tokens can be written is one that the printer can
  show with such tokens (`Condition.tree_lexed`).
-/
import PlZero.Proofs.Derivation.Depth
import PlZero.Proofs.Derivation.Tree
import PlZero.Proofs.Printing.Written
import PlZero.Proofs.Tree.Alike

namespace PlZero

/-- Places that need not have anything to do with each other. -/
def Anywhere (_ _ : Location) : Prop := True

namespace Operator

theorem operatorOf_kind {op : Operator} (h : op ≠ .neg) : Derivation.operatorOf op.kind = op := by
  revert h
  cases op <;> decide

/-- The rank of an operator decides at which of its operands an expression begins. -/
theorem rank_cases {op : Operator} (h : op ≠ .neg) :
    (op.kind ∈ multiplicativeKinds ∧ op.signsLeft = false ∧ op.signsRight = false) ∨
      (op.kind ∈ additiveKinds ∧ op.signsLeft = true ∧ op.signsRight = false) ∨
      (op.kind ∈ relationalKinds ∧ op.signsLeft = true ∧ op.signsRight = true) := by
  revert h
  cases op <;> decide

end Operator

namespace Derivation

/-! ### From tokens to trees -/

theorem operatorOf_ne_neg (k : Kind) : operatorOf k ≠ .neg := by cases k <;> decide

mutual

theorem Factor.tree_lexed (scope : Nat) : ∀ c : Factor, (∀ t ∈ c.tokens, t.Writable) →
    (c.tree scope).Lexed scope
  | .name ⟨⟨k, l, p⟩, hk⟩, h => by
    obtain rfl : k = .identifier := hk
    obtain ⟨name, rfl, hname⟩ := h _ List.mem_cons_self
    exact ⟨⟨name, rfl, hname⟩, rfl⟩
  | .number ⟨⟨k, l, p⟩, hk⟩, h => by
    obtain rfl : k = .number := hk
    obtain ⟨n, rfl, hn⟩ := h _ List.mem_cons_self
    exact ⟨n, rfl, hn⟩
  | .parens opening inside closing, h => by
    refine inside.tree_lexed scope fun t ht => h t ?_
    simp [Factor.tokens, ht]

theorem Factor.chain_lexed (scope : Nat) : ∀ (left : PlZero.Expression)
    (more : List (TokenIn multiplicativeKinds × Factor)), left.Lexed scope →
      (∀ t ∈ Factor.tokensMore more, t.Writable) → (Factor.chain scope left more).Lexed scope
  | _, [], hleft, _ => hleft
  | left, (sign, factor) :: more, hleft, h => by
    have hfactor : ∀ t ∈ factor.tokens, t.Writable :=
      fun t ht => h t (by simp [Factor.tokensMore, ht])
    have hmore : ∀ t ∈ Factor.tokensMore more, t.Writable :=
      fun t ht => h t (by simp [Factor.tokensMore, ht])
    exact Factor.chain_lexed scope _ more
      ⟨operatorOf_ne_neg _, hleft, factor.tree_lexed scope hfactor⟩ hmore

theorem Term.tree_lexed (scope : Nat) : ∀ c : Term, (∀ t ∈ c.tokens, t.Writable) →
    (c.tree scope).Lexed scope
  | .mk first more, h => Factor.chain_lexed scope _ more
      (first.tree_lexed scope fun t ht => h t (by simp [Term.tokens, ht]))
      fun t ht => h t (by simp [Term.tokens, ht])

theorem Term.chain_lexed (scope : Nat) : ∀ (left : PlZero.Expression)
    (more : List (TokenIn additiveKinds × Term)), left.Lexed scope →
      (∀ t ∈ Term.tokensMore more, t.Writable) → (Term.chain scope left more).Lexed scope
  | _, [], hleft, _ => hleft
  | left, (sign, term) :: more, hleft, h => by
    have hterm : ∀ t ∈ term.tokens, t.Writable :=
      fun t ht => h t (by simp [Term.tokensMore, ht])
    have hmore : ∀ t ∈ Term.tokensMore more, t.Writable :=
      fun t ht => h t (by simp [Term.tokensMore, ht])
    exact Term.chain_lexed scope _ more
      ⟨operatorOf_ne_neg _, hleft, term.tree_lexed scope hterm⟩ hmore

theorem Expression.tree_lexed (scope : Nat) : ∀ c : Expression, (∀ t ∈ c.tokens, t.Writable) →
    (c.tree scope).Lexed scope
  | .mk none first more, h => Term.chain_lexed scope _ more
      (first.tree_lexed scope fun t ht => h t (by simp [Expression.tokens, ht]))
      fun t ht => h t (by simp [Expression.tokens, ht])
  | .mk (some sign) first more, h => by
    have hfirst := first.tree_lexed scope fun t ht => h t (by simp [Expression.tokens, ht])
    have hmore : ∀ t ∈ Term.tokensMore more, t.Writable :=
      fun t ht => h t (by simp [Expression.tokens, ht])
    rw [Expression.tree]
    split
    · exact Term.chain_lexed scope _ more ⟨rfl, hfirst⟩ hmore
    · exact Term.chain_lexed scope _ more hfirst hmore

theorem Condition.tree_lexed (scope : Nat) : ∀ c : Condition, (∀ t ∈ c.tokens, t.Writable) →
    (c.tree scope).Lexed scope
  | .plain expression, h => expression.tree_lexed scope h
  | .compared left sign right, h =>
    ⟨operatorOf_ne_neg _, left.tree_lexed scope fun t ht => h t (by simp [Condition.tokens, ht]),
      right.tree_lexed scope fun t ht => h t (by simp [Condition.tokens, ht])⟩

end

/-! ### From trees to tokens -/

/-- An expression that has no more than a factor, before which a sign may stand. -/
abbrev signed (sign : Option (TokenIn additiveKinds)) (factor : Factor) : Expression :=
  .mk sign (.mk factor []) []

theorem signed_tokens (sign : Option (TokenIn additiveKinds)) (factor : Factor)
    (more : List (TokenIn additiveKinds × Term)) :
    (Expression.mk sign (.mk factor []) more).tokens =
      (signed sign factor).tokens ++ Term.tokensMore more := by
  cases sign <;>
    simp [Expression.tokens, Term.tokens, Term.tokensMore, Factor.tokensMore]

theorem signed_tree (scope : Nat) (sign : Option (TokenIn additiveKinds)) (factor : Factor)
    (more : List (TokenIn additiveKinds × Term)) :
    (Expression.mk sign (.mk factor []) more).tree scope =
      Term.chain scope ((signed sign factor).tree scope) more := by
  cases sign with
  | none => rfl
  | some sign =>
    rw [Expression.tree, Expression.tree]
    split <;> rfl

/-- Tokens are derived as a factor, before which a sign may stand if `front` says so, and the
    tree is an expression up to places. -/
def Derives (scope : Nat) (e : PlZero.Expression) (ts : List Token) : Bool → Prop
  | false => ∃ c : Factor,
    c.tokens = ts ∧ e.Alike Anywhere (c.tree scope) ∧ c.nesting = e.parentheses
  | true => ∃ (sign : Option (TokenIn additiveKinds)) (c : Factor), (signed sign c).tokens = ts ∧
    e.Alike Anywhere ((signed sign c).tree scope) ∧ c.nesting = e.parentheses

theorem Derives.of_factor {scope : Nat} {e : PlZero.Expression} {c : Factor}
    (h : e.Alike Anywhere (c.tree scope)) (hn : c.nesting = e.parentheses) (front : Bool) :
    Derives scope e c.tokens front := by
  cases front with
  | false => exact ⟨c, rfl, h, hn⟩
  | true =>
    refine ⟨none, c, ?_, h, hn⟩
    simp [Expression.tokens, Term.tokens, Term.tokensMore, Factor.tokensMore]

/-- The tokens of an operation are derived as a condition if those of its operands are derived
    with a sign before them where there may be one. -/
theorem operation_derived {scope : Nat} {l : Location} {op : Operator}
    {left right : PlZero.Expression} {ls rs : List Token} {sign : Token} (hop : op ≠ .neg)
    (hsign : sign.kind = op.kind) (hleft : Derives scope left ls op.signsLeft)
    (hright : Derives scope right rs op.signsRight) :
    ∃ c : Condition, c.tokens = ls ++ sign :: rs ∧
      (PlZero.Expression.binary l op left right).Alike Anywhere (c.tree scope) ∧
      c.nesting = max left.parentheses right.parentheses := by
  have hbinary : ∀ {e f : PlZero.Expression}, left.Alike Anywhere e → right.Alike Anywhere f →
      (PlZero.Expression.binary l op left right).Alike Anywhere
        (.binary sign.location (operatorOf sign.kind) e f) := by
    intro e f he hf
    rw [hsign, Operator.operatorOf_kind hop]
    exact .binary trivial op he hf
  rcases Operator.rank_cases hop with ⟨hk, hl, hr⟩ | ⟨hk, hl, hr⟩ | ⟨hk, hl, hr⟩
  · rw [hl] at hleft
    rw [hr] at hright
    obtain ⟨c, rfl, hc, hn⟩ := hleft
    obtain ⟨d, rfl, hd, hn'⟩ := hright
    let operator : TokenIn multiplicativeKinds := ⟨sign, hsign ▸ hk⟩
    refine ⟨.plain (.mk none (.mk c [(operator, d)]) []), ?_, hbinary hc hd, ?_⟩
    · simp [Condition.tokens, Expression.tokens, Term.tokens, Term.tokensMore, Factor.tokensMore,
        operator]
    · simp [Condition.nesting, Expression.nesting, Term.nesting, Term.nestingMore,
        Factor.nestingMore, hn, hn']
  · rw [hl] at hleft
    rw [hr] at hright
    obtain ⟨front, c, rfl, hc, hn⟩ := hleft
    obtain ⟨d, rfl, hd, hn'⟩ := hright
    let operator : TokenIn additiveKinds := ⟨sign, hsign ▸ hk⟩
    refine ⟨.plain (.mk front (.mk c []) [(operator, .mk d [])]), ?_, ?_, ?_⟩
    · rw [Condition.tokens, signed_tokens]
      simp [Term.tokens, Term.tokensMore, Factor.tokensMore, operator]
    · rw [Condition.tree, signed_tree]
      exact hbinary hc hd
    · simp [Condition.nesting, Expression.nesting, Term.nesting, Term.nestingMore,
        Factor.nestingMore, hn, hn']
  · rw [hl] at hleft
    rw [hr] at hright
    obtain ⟨front, c, rfl, hc, hn⟩ := hleft
    obtain ⟨front', d, rfl, hd, hn'⟩ := hright
    refine ⟨.compared (signed front c) ⟨sign, hsign ▸ hk⟩ (signed front' d), rfl,
      hbinary hc hd, ?_⟩
    simp [Condition.nesting, Expression.nesting, Term.nesting, Term.nestingMore,
      Factor.nestingMore, hn, hn']

/-- Tokens of the kinds and payloads of a printed form are derived by the grammar. -/
theorem printed_derives (e : PlZero.Expression) {scope : Nat} {front : Bool} {w : List Char}
    {ts : List Token} (hprintable : e.Printable front) (hlexed : e.Lexed scope)
    (hts : ts.map Token.symbol = (e.items w).map fun x => x.1.symbol) :
    Derives scope e ts front := by
  induction e generalizing front w ts with
  | error l => exact hprintable.elim
  | read l => exact hprintable.elim
  | number l value =>
    obtain ⟨⟨k, place, p⟩, rfl, ht⟩ := List.map_eq_singleton_iff.mp hts
    obtain ⟨rfl, rfl⟩ := Prod.mk.inj ht
    exact .of_factor (c := .number ⟨_, rfl⟩) (.number trivial value) rfl front
  | identifier l name k =>
    obtain ⟨⟨k', place, p⟩, rfl, ht⟩ := List.map_eq_singleton_iff.mp hts
    obtain ⟨rfl, rfl⟩ := Prod.mk.inj ht
    obtain ⟨-, rfl⟩ := hlexed
    exact .of_factor (c := .name ⟨_, rfl⟩) (.identifier trivial name k) rfl front
  | unary l op operand ih =>
    obtain ⟨rfl, hoperand⟩ := hprintable
    obtain ⟨rfl, hlexed⟩ := hlexed
    obtain ⟨⟨k, place, p⟩, us, rfl, ht, hus⟩ := List.map_eq_cons_iff.mp hts
    obtain ⟨rfl, rfl⟩ := Prod.mk.inj ht
    obtain ⟨c, rfl, hc, hn⟩ := ih hoperand hlexed hus
    have hminus : Kind.minus ∈ additiveKinds := by decide
    let minus : TokenIn additiveKinds := ⟨⟨.minus, place, .absent⟩, hminus⟩
    refine ⟨some minus, c, ?_, .unary trivial .neg hc, hn⟩
    simp [Expression.tokens, Term.tokens, Term.tokensMore, Factor.tokensMore, minus,
      Operator.kind, Kind.sign]
  | binary l op left right ihl ihr =>
    obtain ⟨hop, hleft, hright⟩ := hlexed
    -- the tokens fall into an opening, the left operand, the operator, the right operand, an end
    obtain ⟨⟨k, place, p⟩, us, rfl, ht, hus⟩ := List.map_eq_cons_iff.mp hts
    obtain ⟨rfl, rfl⟩ := Prod.mk.inj ht
    rw [List.map_append] at hus
    obtain ⟨ls, vs, rfl, hls, hvs⟩ := List.map_eq_append_iff.mp hus
    obtain ⟨sign, xs, rfl, hsign, hxs⟩ := List.map_eq_cons_iff.mp hvs
    rw [List.map_append] at hxs
    obtain ⟨rs, ys, rfl, hrs, hys⟩ := List.map_eq_append_iff.mp hxs
    obtain ⟨⟨k', place', p'⟩, rfl, ht'⟩ := List.map_eq_singleton_iff.mp hys
    obtain ⟨rfl, rfl⟩ := Prod.mk.inj ht'
    obtain ⟨c, hc, halike, hn⟩ := operation_derived (l := l) hop (Prod.mk.inj hsign).1
      (ihl hprintable.1 hleft hls) (ihr hprintable.2 hright hrs)
    let opening : TokenOf .leftParen := ⟨⟨.leftParen, place, .absent⟩, rfl⟩
    let closing : TokenOf .rightParen := ⟨⟨.rightParen, place', .absent⟩, rfl⟩
    have hparens := Derives.of_factor (c := .parens opening c closing) halike
      (congrArg (· + 1) hn) front
    rw [Factor.tokens, hc] at hparens
    simpa [opening, closing, Kind.sign] using hparens

/-- A printed form is derived as a condition. -/
theorem printed_condition (e : PlZero.Expression) {scope : Nat} {w : List Char} {ts : List Token}
    (hprintable : e.Printable true) (hlexed : e.Lexed scope)
    (hts : ts.map Token.symbol = (e.items w).map fun x => x.1.symbol) :
    ∃ c : Condition, c.tokens = ts ∧ e.Alike Anywhere (c.tree scope) ∧
      c.nesting = e.parentheses := by
  obtain ⟨sign, c, rfl, hc, hn⟩ := printed_derives e hprintable hlexed hts
  refine ⟨.plain (signed sign c), rfl, hc, ?_⟩
  simp [Condition.nesting, Expression.nesting, Term.nesting, Term.nestingMore,
    Factor.nestingMore, hn]

end Derivation

end PlZero
