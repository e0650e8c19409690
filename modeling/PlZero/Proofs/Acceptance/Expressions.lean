/-
  PlZero/Proofs/Acceptance/Expressions.lean
  =========================================
  **Conditions and expressions that are read without a complaint** are derived by the
  grammar, and nest no deeper than the nesting that is left.
-/
import PlZero.Proofs.Acceptance.Reads
import PlZero.Proofs.Contract.Expressions

namespace PlZero.Grammar

open Reader

variable {N : Nat} {recover : KindSet} {s : ReaderState}

theorem lvalue_reads : Reads (lvalue recover)
    (fun _ ts => ∃ t : Derivation.TokenOf .identifier, ts = [t.val]) s := by
  refine .attempt fun l t _ hk => ?_
  have hident : t.stream.head.kind = .identifier := KindSet.mem_braces.mp hk
  refine .name hident fun x => .look ?_
  refine ((Reads.expect hident (by decide)).bind fun _ _ _ => .pure).mono ?_
  rintro _ _ ⟨_, _, _, ⟨name, rfl⟩, rfl, rfl⟩
  exact ⟨name, rfl⟩

section

variable {inside : KindSet → Reader Expression}
  (hinside : ∀ r (t : ReaderState), t.nesting = N + 1 → N + 1 ≤ maxNesting → Reads (inside r)
    (fun _ ts => ∃ c : Derivation.Condition, N + 1 + c.nesting ≤ maxNesting ∧ ts = c.tokens) t)
  (hle : N ≤ maxNesting)
include hinside hle

theorem factorOver_reads (hN : s.nesting = N) : Reads (factorOver inside recover)
    (fun _ ts => ∃ c : Derivation.Factor, N + c.nesting ≤ maxNesting ∧ ts = c.tokens) s := by
  refine .attempt fun l t ht hk => .look ?_
  rcases Starts.mem_factor hk with hk | hk | hk
  · rw [hk]
    refine lvalue_reads.mono ?_
    rintro _ _ ⟨name, rfl⟩
    exact ⟨.name name, hle, rfl⟩
  · rw [hk]
    refine .number hk fun x => ?_
    refine ((Reads.expect hk (by decide)).bind fun _ _ _ => .pure).mono ?_
    rintro _ _ ⟨_, _, _, ⟨number, rfl⟩, rfl, rfl⟩
    exact ⟨.number number, hle, rfl⟩
  · rw [hk]
    refine ((Reads.expect hk (by decide)).bind (B := fun _ _ ts =>
      ∃ (c : Derivation.Condition) (closing : Derivation.TokenOf .rightParen),
        N + 1 + c.nesting ≤ maxNesting ∧ ts = c.tokens ++ [closing.val])
      fun _ u hu => .look ?_).mono ?_
    · by_cases hlimit : maxNesting ≤ u.nesting
      · rw [if_pos (decide_eq_true hlimit)]
        refine (Reads.report.bind fun _ _ _ => Reads.skipParenthesised.bind
          fun _ _ _ => .pure).mono ?_
        rintro _ _ ⟨_, _, _, h, _⟩
        exact h.elim
      · rw [if_neg (by simpa using hlimit)]
        have hu' : u.nesting = N := by rw [hu, ht, hN]
        refine ((Reads.deeper fun v hv => hinside _ v (by rw [hv, hu']) (by omega)).bind
          fun _ _ _ => (Reads.demand (by decide)).bind fun _ _ _ => .pure).mono ?_
        rintro _ _ ⟨_, _, _, ⟨c, hc, rfl⟩, ⟨_, _, _, ⟨closing, rfl⟩, rfl, rfl⟩, rfl⟩
        exact ⟨c, closing, hc, by simp⟩
    · rintro _ _ ⟨_, _, _, ⟨opening, rfl⟩, ⟨c, closing, hc, rfl⟩, rfl⟩
      exact ⟨.parens opening c closing, by rw [Derivation.Factor.nesting]; omega, rfl⟩

omit hinside hle in
/-- The operators and operands behind the first operand. -/
theorem joined_reads {γ : Type} {kinds : KindSet} {operator : Kind → Operator}
    {part : Reader Expression} {first : Expression} {tokens : γ → List Token} {P : γ → Prop}
    (hkinds : .endOfFile ∉ kinds)
    (hpart : ∀ t : ReaderState, t.nesting = s.nesting →
      Reads part (fun _ ts => ∃ c, P c ∧ ts = tokens c) t) :
    Reads (joined kinds operator part first) (fun _ ts =>
      ∃ more : List (Derivation.TokenIn kinds × γ), (∀ p ∈ more, P p.2) ∧
        ts = Derivation.tokensBehind tokens more) s := by
  refine .whileIn fun left t ht hin => .look ?_
  refine ((Reads.expect_head hin hkinds).bind fun _ u hu => (hpart u (hu.trans ht)).bind
    fun _ _ _ => .pure).mono ?_
  rintro _ _ ⟨_, _, _, ⟨sign, rfl⟩, ⟨_, _, _, ⟨c, hc, rfl⟩, rfl, rfl⟩, rfl⟩
  exact ⟨(sign, c), hc, by simp⟩

theorem termOver_reads (hN : s.nesting = N) : Reads (termOver inside recover)
    (fun _ ts => ∃ c : Derivation.Term, N + c.nesting ≤ maxNesting ∧ ts = c.tokens) s := by
  refine .attempt fun l t ht hk => ?_
  have hfactor : ∀ u : ReaderState, u.nesting = t.nesting → Reads
      (factorOver inside (recover ∪ multiplicativeKinds)) (fun _ ts =>
        ∃ c : Derivation.Factor, N + c.nesting ≤ maxNesting ∧ ts = c.tokens) u :=
    fun u hu => factorOver_reads hinside hle (by rw [hu, ht, hN])
  refine ((hfactor t rfl).bind fun first u hu =>
    joined_reads (by decide) fun v hv => hfactor v (hv.trans hu)).mono ?_
  rintro _ _ ⟨_, _, _, ⟨first, hfirst, rfl⟩, ⟨more, hmore, rfl⟩, rfl⟩
  refine ⟨.mk first more, ?_, ?_⟩
  · have hmost : Derivation.most (fun p => p.2.nesting) more ≤ maxNesting - N :=
      Derivation.most_le fun p hp => Nat.le_sub_of_add_le' (hmore p hp)
    rw [Derivation.Term.nesting, Derivation.Factor.nestingMore_eq]
    omega
  · rw [Derivation.Term.tokens, Derivation.Factor.tokensMore_eq]

omit hinside hle in
theorem leadingSign_reads : Reads leadingSign (fun _ ts =>
    ts = [] ∨ ∃ sign : Derivation.TokenIn additiveKinds, ts = [sign.val]) s := by
  refine .look ?_
  split
  · rename_i hk
    refine ((Reads.expect_head (K := additiveKinds) hk (by decide)).bind
      fun _ _ _ => .pure).mono ?_
    rintro _ _ ⟨_, _, _, ⟨sign, rfl⟩, rfl, rfl⟩
    exact .inr ⟨sign, rfl⟩
  · exact Reads.pure.mono fun _ _ h => .inl h

theorem expressionOver_reads (hN : s.nesting = N) : Reads (expressionOver inside recover)
    (fun _ ts => ∃ c : Derivation.Expression,
      N + c.nesting ≤ maxNesting ∧ ts = c.tokens) s := by
  refine .attempt fun l t ht hk => ?_
  have hterm : ∀ u : ReaderState, u.nesting = t.nesting → Reads
      (termOver inside (recover ∪ additiveKinds)) (fun _ ts =>
        ∃ c : Derivation.Term, N + c.nesting ≤ maxNesting ∧ ts = c.tokens) u :=
    fun u hu => termOver_reads hinside hle (by rw [hu, ht, hN])
  refine (leadingSign_reads.bind fun negative u hu => (hterm u hu).bind fun first v hv =>
    joined_reads (by decide) fun w hw => hterm w (hw.trans (hv.trans hu))).mono ?_
  rintro _ _ ⟨_, signs, _, hsigns, ⟨_, _, _, ⟨first, hfirst, rfl⟩, ⟨more, hmore, rfl⟩, rfl⟩, rfl⟩
  have hnesting : N + max first.nesting (Derivation.Term.nestingMore more) ≤ maxNesting := by
    have hmost : Derivation.most (fun p => p.2.nesting) more ≤ maxNesting - N :=
      Derivation.most_le fun p hp => Nat.le_sub_of_add_le' (hmore p hp)
    rw [Derivation.Term.nestingMore_eq]
    omega
  rcases hsigns with rfl | ⟨sign, rfl⟩
  · exact ⟨.mk none first more, hnesting, by
      rw [Derivation.Expression.tokens, Derivation.Term.tokensMore_eq]; rfl⟩
  · exact ⟨.mk (some sign) first more, hnesting, by
      rw [Derivation.Expression.tokens, Derivation.Term.tokensMore_eq]; rfl⟩

omit hinside hle in
theorem relOp_reads (hk : s.stream.head.kind ∈ relationalKinds) : Reads (relOp recover)
    (fun _ ts => ∃ sign : Derivation.TokenIn relationalKinds, ts = [sign.val]) s := by
  refine .certainly hk fun l t _ hk => .look ?_
  refine ((Reads.expect_head hk (by decide)).bind fun _ _ _ => .pure).mono ?_
  rintro _ _ ⟨_, _, _, ⟨sign, rfl⟩, rfl, rfl⟩
  exact ⟨sign, rfl⟩

theorem conditionOver_reads (hN : s.nesting = N) : Reads (conditionOver inside recover)
    (fun _ ts => ∃ c : Derivation.Condition,
      N + c.nesting ≤ maxNesting ∧ ts = c.tokens) s := by
  refine .attempt fun l t ht hk => ?_
  have hexpression : ∀ r (u : ReaderState), u.nesting = t.nesting → Reads
      (expressionOver inside r) (fun _ ts =>
        ∃ c : Derivation.Expression, N + c.nesting ≤ maxNesting ∧ ts = c.tokens) u :=
    fun r u hu => expressionOver_reads hinside hle (by rw [hu, ht, hN])
  refine ((hexpression _ t rfl).bind (B := fun _ _ ts => ts = [] ∨
    ∃ (sign : Derivation.TokenIn relationalKinds) (right : Derivation.Expression),
      N + right.nesting ≤ maxNesting ∧ ts = sign.val :: right.tokens)
    fun left u hu => .look ?_).mono ?_
  · by_cases hk : u.stream.head.kind ∈ relationalKinds
    · rw [if_pos (Stream.headIn_iff.mpr hk)]
      refine .look ?_
      refine ((relOp_reads hk).bind fun op v hv => (hexpression _ v (hv.trans hu)).bind
        fun _ _ _ => .pure).mono ?_
      rintro _ _ ⟨_, _, _, ⟨sign, rfl⟩, ⟨_, _, _, ⟨right, hright, rfl⟩, rfl, rfl⟩, rfl⟩
      exact .inr ⟨sign, right, hright, by simp⟩
    · rw [if_neg (mt Stream.headIn_iff.mp hk)]
      exact Reads.pure.mono fun _ _ h => .inl h
  · rintro _ _ ⟨_, _, _, ⟨left, hleft, rfl⟩, rfl | ⟨sign, right, hright, rfl⟩, rfl⟩
    · exact ⟨.plain left, hleft, by simp [Derivation.Condition.tokens]⟩
    · refine ⟨.compared left sign right, ?_, by simp [Derivation.Condition.tokens]⟩
      rw [Derivation.Condition.nesting]
      omega

end

theorem conditionWithin_reads (k : Nat) : ∀ (recover : KindSet) (s : ReaderState) (N : Nat),
    s.nesting = N → N ≤ maxNesting → Reads (conditionWithin k recover) (fun _ ts =>
      ∃ c : Derivation.Condition, N + c.nesting ≤ maxNesting ∧ ts = c.tokens) s := by
  induction k with
  | zero => exact fun _ _ _ _ _ => .tooDeep
  | succ k ih =>
    intro recover s N hN hle
    exact conditionOver_reads (fun r t ht hle' => ih r t (N + 1) ht hle') hle hN

theorem condition_reads (h : s.nesting = 0) : Reads (condition recover)
    (fun _ ts => ∃ c : Derivation.Condition, c.nesting ≤ maxNesting ∧ ts = c.tokens) s :=
  (conditionOver_reads (N := 0) (fun r t ht hle => conditionWithin_reads maxNesting r t 1 ht hle)
    (Nat.zero_le _) h).mono fun _ _ ⟨c, hc, hts⟩ => ⟨c, by omega, hts⟩

theorem expression_reads (h : s.nesting = 0) : Reads (expression recover)
    (fun _ ts => ∃ c : Derivation.Expression, c.nesting ≤ maxNesting ∧ ts = c.tokens) s :=
  (expressionOver_reads (N := 0) (fun r t ht hle => conditionWithin_reads maxNesting r t 1 ht hle)
    (Nat.zero_le _) h).mono fun _ _ ⟨c, hc, hts⟩ => ⟨c, by omega, hts⟩

end PlZero.Grammar
