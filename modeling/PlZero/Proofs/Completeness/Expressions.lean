/-
  PlZero/Proofs/Completeness/Expressions.lean
  ===========================================
  **Reading a condition or an expression of the grammar** yields its tree, as long as the
  token behind it is one that the caller waits for and no operator with which the expression
  could go on.  A group of parentheses that nests too deeply is passed over, whatever it is
  filled with, and reported at its first parenthesis; nothing else is reported.
-/
import PlZero.Grammar.Expressions
import PlZero.Proofs.Completeness.Yields
import PlZero.Proofs.Derivation.Overdeep

namespace PlZero.Grammar

open Reader

open PlZero.Derivation (tokensBehind chainOf operatorOf Filling Segment typed overdeep tooDeepAt)

/-- The operators between the operands of a condition. -/
def operatorKinds : KindSet := multiplicativeKinds ∪ additiveKinds ∪ relationalKinds

theorem relational_eq {k : Kind} (h : k ∈ relationalKinds) : relational k = operatorOf k := by
  revert h
  cases k <;> decide

theorem additive_eq {k : Kind} (h : k ∈ additiveKinds) : additive k = operatorOf k := by
  revert h
  cases k <;> decide

theorem multiplicative_eq {k : Kind} (h : k ∈ multiplicativeKinds) :
    multiplicative k = operatorOf k := by
  revert h
  cases k <;> decide

/-! ### The ranks of operators -/

theorem additive_not_multiplicative {k : Kind} (h : k ∈ additiveKinds) :
    k ∉ multiplicativeKinds := by
  revert h
  cases k <;> decide

theorem relational_not_arithmetic {k : Kind} (h : k ∈ relationalKinds) :
    k ∉ multiplicativeKinds ∧ k ∉ additiveKinds := by
  revert h
  cases k <;> decide

theorem term_not_additive {k : Kind} (h : k ∈ Starts.term) : k ∉ additiveKinds := by
  revert h
  cases k <;> decide

theorem not_operator {k : Kind} (h : k ∉ operatorKinds) :
    k ∉ multiplicativeKinds ∧ k ∉ additiveKinds ∧ k ∉ relationalKinds := by
  simpa [operatorKinds, not_or, and_assoc] using h

variable {E : Abort → Stream → Prop} {fill : Filling} {n : Nat} {T : SymbolTable}
  {recover : KindSet} {after : List Token}

/-! ### Operands -/

theorem lvalue_yields (t : Derivation.TokenOf .identifier) (hend : nextKind after ∈ recover) :
    Yields E n T (lvalue recover) [t.val] after (Derivation.targetTree T.current t.val) []
      T := by
  refine .attempt (t := t.val) rfl (KindSet.mem_braces.mpr t.property) hend ?_
  exact .name rfl t.property (.currentScope (.expect t.property .pure))

/-- The operators and operands behind the first operand. -/
theorem joined_yields {γ : Type} {kinds : KindSet} {operator : Kind → Operator}
    {part : Reader Expression} {tokens : γ → List Token} {tree : γ → Expression}
    {reports : γ → List Diagnostic} {more : List (Derivation.TokenIn kinds × γ)}
    (hoperator : ∀ {k}, k ∈ kinds → operator k = operatorOf k) (hstop : nextKind after ∉ kinds)
    (hpart : ∀ c us, us = after ∨ nextKind us ∈ kinds →
      Yields E n T part (tokens c) us (tree c) (reports c) T) (first : Expression) :
    Yields E n T (joined kinds operator part first) (tokensBehind tokens more) after
      (chainOf tree first more) (more.flatMap fun p => reports p.2) T := by
  refine Turns.whileIn ?_ hstop
  induction more generalizing first with
  | nil => exact .done
  | cons p more ih =>
    obtain ⟨sign, c⟩ := p
    have hc := hpart c _ (tokensBehind_next tokens more)
    rw [tokensBehind_cons]
    refine .turn rfl sign.property ?_ (ih _)
    refine .head rfl (.expect rfl ?_)
    dsimp only
    rw [← hoperator sign.property]
    exact .map hc

/-! ### Rules around nested conditions -/

section

variable {inside : KindSet → Reader Expression}
  (hinside : ∀ (c : Derivation.Condition) (r : KindSet) (us : List Token),
    n < maxNesting → nextKind us ∈ r → nextKind us ∉ operatorKinds →
      Yields E (n + 1) T (inside r) (typed fill (c.segments (n + 1))) us
        (c.treeAt (n + 1) T.current) ((overdeep (c.segments (n + 1))).map tooDeepAt) T)
include hinside

theorem factorOver_yields (c : Derivation.Factor) (hend : nextKind after ∈ recover) :
    Yields E n T (factorOver inside recover) (typed fill (c.segments n)) after
      (c.treeAt n T.current) ((overdeep (c.segments n)).map tooDeepAt) T := by
  obtain ⟨hfirst, hstart⟩ := c.typed_begins fill n
  refine .attempt hfirst hstart hend ?_
  cases c with
  | name t =>
    refine .head rfl ?_
    rw [t.property]
    exact lvalue_yields t hend
  | number t =>
    refine .head rfl ?_
    rw [t.property]
    exact .number rfl t.property (.expect t.property .pure)
  | parens opening c closing =>
    rw [Derivation.Factor.segments, Derivation.Factor.treeAt]
    by_cases hn : n < maxNesting
    · have hc := hinside c (recover ∪ {.rightParen}) ([closing.val] ++ after) hn
        (nextKind_mem closing _ _) (nextKind_not_mem closing _ (by decide))
      have htokens : typed fill (.token opening.val :: (c.segments (n + 1) ++
          [.token closing.val])) = opening.val :: (typed fill (c.segments (n + 1)) ++
            [closing.val]) := by
        simp [Segment.typed]
      have hreports : overdeep (.token opening.val :: (c.segments (n + 1) ++
          [.token closing.val])) = overdeep (c.segments (n + 1)) := by
        simp [Segment.overdeep]
      rw [if_pos hn, if_pos hn, htokens, hreports]
      refine .head rfl ?_
      rw [opening.property]
      refine .expect opening.property (.atLimit hn ?_)
      exact .ending (.deeper hc) (.demand closing.property .pure)
    · -- the parenthesis is one too many, and all up to its partner is passed over
      have htokens : typed fill [.group opening c closing] =
          opening.val :: (fill.inside c ++ [closing.val]) := by
        simp [Segment.typed]
      rw [if_neg hn, if_neg hn, htokens]
      refine .head rfl ?_
      rw [opening.property]
      refine .expect opening.property (.full (Nat.le_of_not_lt hn) (.aside .report ?_))
      exact .last (.skipParenthesised (fill.paired c) closing.property) .pure

theorem termOver_yields (c : Derivation.Term) (hend : nextKind after ∈ recover)
    (hstop : nextKind after ∉ multiplicativeKinds) :
    Yields E n T (termOver inside recover) (typed fill (c.segments n)) after
      (c.treeAt n T.current) ((overdeep (c.segments n)).map tooDeepAt) T := by
  obtain ⟨hhead, hstart⟩ := c.typed_begins fill n
  refine .attempt hhead hstart hend ?_
  obtain ⟨first, more⟩ := c
  have hfactor : ∀ (c : Derivation.Factor) (us : List Token),
      us = after ∨ nextKind us ∈ multiplicativeKinds →
        Yields E n T (factorOver inside (recover ∪ multiplicativeKinds))
          (typed fill (c.segments n)) us (c.treeAt n T.current)
          ((overdeep (c.segments n)).map tooDeepAt) T := by
    intro c us hus
    refine factorOver_yields hinside c (KindSet.mem_union.mpr ?_)
    rcases hus with rfl | hus
    · exact .inl hend
    · exact .inr hus
  rw [Derivation.Term.segments, Derivation.Factor.segmentsMore_eq, Derivation.typed_append,
    Derivation.typed_behind, Derivation.overdeep_append, Derivation.overdeep_behind,
    List.map_append, List.map_flatMap, Derivation.Term.treeAt, Derivation.Factor.chainAt_eq]
  exact .bind (hfactor first _ (tokensBehind_next _ more))
    (joined_yields multiplicative_eq hstop hfactor _)

omit hinside in
theorem leadingSign_some (sign : Derivation.TokenIn additiveKinds) :
    Yields E n T leadingSign [sign.val] after (sign.val.kind == .minus) [] T := by
  refine .head rfl ?_
  rw [if_pos (by exact sign.property)]
  exact .expect rfl .pure

omit hinside in
theorem leadingSign_none (h : nextKind after ∈ Starts.term) :
    Yields E n T leadingSign [] after false [] T := by
  cases after with
  | nil => exact absurd h (by decide)
  | cons t us =>
    refine .head rfl ?_
    rw [if_neg (by exact term_not_additive h)]
    exact .pure

theorem expressionOver_yields (c : Derivation.Expression) (hend : nextKind after ∈ recover)
    (hmul : nextKind after ∉ multiplicativeKinds) (hadd : nextKind after ∉ additiveKinds) :
    Yields E n T (expressionOver inside recover) (typed fill (c.segments n)) after
      (c.treeAt n T.current) ((overdeep (c.segments n)).map tooDeepAt) T := by
  obtain ⟨hhead, hstart⟩ := c.typed_begins fill n
  refine .attempt hhead hstart hend ?_
  obtain ⟨sign, first, more⟩ := c
  have hterm : ∀ (c : Derivation.Term) (us : List Token),
      us = after ∨ nextKind us ∈ additiveKinds →
        Yields E n T (termOver inside (recover ∪ additiveKinds)) (typed fill (c.segments n)) us
          (c.treeAt n T.current) ((overdeep (c.segments n)).map tooDeepAt) T := by
    intro c us hus
    rcases hus with rfl | hus
    · exact termOver_yields hinside c (KindSet.mem_union.mpr (.inl hend)) hmul
    · exact termOver_yields hinside c (KindSet.mem_union.mpr (.inr hus))
        (additive_not_multiplicative hus)
  have hfirst := hterm first _ (tokensBehind_next (fun c => typed fill (c.segments n)) more)
  have hrest : ∀ left, Yields E n T (joined additiveKinds additive
      (termOver inside (recover ∪ additiveKinds)) left)
      (tokensBehind (fun c => typed fill (c.segments n)) more) after
      (chainOf (Derivation.Term.treeAt n T.current) left more)
      (more.flatMap fun p => (overdeep (p.2.segments n)).map tooDeepAt) T :=
    joined_yields additive_eq hadd hterm
  cases sign with
  | none =>
    obtain ⟨hhead, hstart⟩ := first.typed_begins fill n
    rw [Derivation.Expression.segments, Derivation.Term.segmentsMore_eq, Derivation.typed_append,
      Derivation.typed_behind, Derivation.overdeep_append, Derivation.overdeep_behind,
      List.map_append, List.map_flatMap, Derivation.Expression.treeAt, Derivation.Term.chainAt_eq]
    have hterms : nextKind (typed fill (first.segments n) ++
        tokensBehind (fun c => typed fill (c.segments n)) more ++ after) ∈ Starts.term := by
      rw [List.append_assoc, nextKind_of_head? hhead]
      exact hstart
    exact .still (leadingSign_none hterms) (.bind hfirst (hrest _))
  | some sign =>
    have hsigned := hrest (if sign.val.kind == .minus
      then .unary sign.val.location .neg (first.treeAt n T.current) else first.treeAt n T.current)
    have htokens : typed fill ((Derivation.Expression.mk (some sign) first more).segments n) =
        sign.val :: (typed fill (first.segments n) ++
          tokensBehind (fun c => typed fill (c.segments n)) more) := by
      simp [Derivation.Expression.segments, Derivation.Term.segmentsMore_eq, Segment.typed,
        Derivation.typed_behind]
    have hreports : overdeep ((Derivation.Expression.mk (some sign) first more).segments n) =
        overdeep (first.segments n) ++ more.flatMap fun p => overdeep (p.2.segments n) := by
      simp [Derivation.Expression.segments, Derivation.Term.segmentsMore_eq, Segment.overdeep,
        Derivation.overdeep_behind]
    rw [htokens, hreports, List.map_append, List.map_flatMap, Derivation.Expression.treeAt,
      Derivation.Term.chainAt_eq, Derivation.Term.chainAt_eq, ← apply_ite (chainOf _ · more)]
    refine .single (leadingSign_some sign) (.bind hfirst ?_)
    simpa only [beq_iff_eq, Derivation.Expression.first] using hsigned

omit hinside in
theorem relOp_yields (sign : Derivation.TokenIn relationalKinds)
    (hend : nextKind after ∈ recover) :
    Yields E n T (relOp recover) [sign.val] after (operatorOf sign.val.kind) [] T := by
  refine .certainly (t := sign.val) rfl sign.property hend (.head rfl ?_)
  rw [← relational_eq sign.property]
  exact .expect rfl .pure

theorem conditionOver_yields (c : Derivation.Condition) (hend : nextKind after ∈ recover)
    (hstop : nextKind after ∉ operatorKinds) :
    Yields E n T (conditionOver inside recover) (typed fill (c.segments n)) after
      (c.treeAt n T.current) ((overdeep (c.segments n)).map tooDeepAt) T := by
  obtain ⟨hhead, hstart⟩ := c.typed_begins fill n
  obtain ⟨hmul, hadd, hrel⟩ := not_operator hstop
  refine .attempt hhead hstart hend ?_
  cases c with
  | plain expression =>
    have hexpression : Yields E n T (expressionOver inside (recover ∪ relationalKinds))
        (typed fill (expression.segments n)) after (expression.treeAt n T.current)
        ((overdeep (expression.segments n)).map tooDeepAt) T :=
      expressionOver_yields hinside expression (KindSet.mem_union.mpr (.inl hend)) hmul hadd
    refine .last hexpression (.headIn ?_)
    rw [if_neg (by exact hrel)]
    exact .pure
  | compared left sign right =>
    obtain ⟨hmul', hadd'⟩ := relational_not_arithmetic sign.property
    have hleft : Yields E n T (expressionOver inside (recover ∪ relationalKinds))
        (typed fill (left.segments n)) (sign.val :: typed fill (right.segments n) ++ after)
        (left.treeAt n T.current) ((overdeep (left.segments n)).map tooDeepAt) T :=
      expressionOver_yields hinside left (KindSet.mem_union.mpr (.inr sign.property)) hmul' hadd'
    have hright : Yields E n T (expressionOver inside recover) (typed fill (right.segments n))
        after (right.treeAt n T.current) ((overdeep (right.segments n)).map tooDeepAt) T :=
      expressionOver_yields hinside right hend hmul hadd
    rw [Derivation.Condition.segments, Derivation.typed_append, Derivation.overdeep_append,
      List.map_append, Derivation.Condition.treeAt]
    refine .bind hleft (.headIn ?_)
    rw [if_pos (by exact sign.property)]
    refine .location rfl (.single (relOp_yields sign ?_) (.map hright))
    obtain ⟨hhead, hstart⟩ := right.typed_begins fill n
    show nextKind (typed fill (right.segments n) ++ after) ∈ _
    rw [nextKind_of_head? hhead]
    exact KindSet.mem_union.mpr (.inr hstart)

end

/-! ### Conditions -/

/-- The levels that are counted down last as long as the nesting stays within its limit. -/
theorem conditionWithin_yields (k : Nat) : ∀ (n : Nat) (c : Derivation.Condition)
    (recover : KindSet) (after : List Token), maxNesting < n + k → n ≤ maxNesting →
      nextKind after ∈ recover → nextKind after ∉ operatorKinds →
        Yields E n T (conditionWithin k recover) (typed fill (c.segments n)) after
          (c.treeAt n T.current) ((overdeep (c.segments n)).map tooDeepAt) T := by
  induction k with
  | zero =>
    intro n c recover after hk hn
    omega
  | succ k ih =>
    intro n c recover after hk hn hend hstop
    refine conditionOver_yields ?_ c hend hstop
    exact fun c r us hlt => ih (n + 1) c r us (by omega) hlt

theorem condition_renders (c : Derivation.Condition) (hend : nextKind after ∈ recover)
    (hstop : nextKind after ∉ operatorKinds) :
    Yields E 0 T (condition recover) (typed fill (c.segments 0)) after (c.treeAt 0 T.current)
      ((overdeep (c.segments 0)).map tooDeepAt) T := by
  refine conditionOver_yields ?_ c hend hstop
  exact fun c r us hlt => conditionWithin_yields maxNesting 1 c r us (by omega) hlt

theorem expression_renders (c : Derivation.Expression) (hend : nextKind after ∈ recover)
    (hstop : nextKind after ∉ operatorKinds) :
    Yields E 0 T (expression recover) (typed fill (c.segments 0)) after (c.treeAt 0 T.current)
      ((overdeep (c.segments 0)).map tooDeepAt) T := by
  obtain ⟨hmul, hadd, -⟩ := not_operator hstop
  refine expressionOver_yields ?_ c hend hmul hadd
  exact fun c r us hlt => conditionWithin_yields maxNesting 1 c r us (by omega) hlt

/-- A condition within the limit is read as its tree, and nothing is reported. -/
theorem condition_yields (c : Derivation.Condition) (hn : c.nesting ≤ maxNesting)
    (hend : nextKind after ∈ recover) (hstop : nextKind after ∉ operatorKinds) :
    Yields E 0 T (condition recover) c.tokens after (c.tree T.current) [] T := by
  obtain ⟨hdeep, htree⟩ := Derivation.Condition.within (n := 0) T.current (c := c) (by omega)
  have h : Yields E 0 T (condition recover) (typed .same (c.segments 0)) after
      (c.treeAt 0 T.current) ((overdeep (c.segments 0)).map tooDeepAt) T :=
    condition_renders c hend hstop
  rwa [c.typed_same, hdeep, htree] at h

theorem expression_yields (c : Derivation.Expression) (hn : c.nesting ≤ maxNesting)
    (hend : nextKind after ∈ recover) (hstop : nextKind after ∉ operatorKinds) :
    Yields E 0 T (expression recover) c.tokens after (c.tree T.current) [] T := by
  obtain ⟨hdeep, htree⟩ := Derivation.Expression.within (n := 0) T.current (c := c) (by omega)
  have h : Yields E 0 T (expression recover) (typed .same (c.segments 0)) after
      (c.treeAt 0 T.current) ((overdeep (c.segments 0)).map tooDeepAt) T :=
    expression_renders c hend hstop
  rwa [c.typed_same, hdeep, htree] at h

end PlZero.Grammar
