/-
  PlZero/Proofs/Contract/Expressions.lean
  =======================================
  **The frame of conditions and expressions.**  Every rule returns a proper expression and
  stops at a token that its caller waits for.  The reader of the condition between
  parentheses is a parameter of the rules, so that each is proved once; the numbers of
  nested conditions that `conditionWithin` counts down never run out, since the nesting in
  the state reaches its limit first.
-/
import PlZero.Grammar.Expressions
import PlZero.Proofs.Contract.Runs

namespace PlZero.Grammar

open Reader

variable {n : Nat} {E : Abort → Stream → Prop} {L : Location → Prop} {recover : KindSet}
  {s : ReaderState}

theorem Starts.mem_factor {k : Kind} (h : k ∈ Starts.factor) :
    k = .identifier ∨ k = .number ∨ k = .leftParen := by
  simpa [Starts.factor] using h

theorem relational_ne_neg (k : Kind) : relational k ≠ .neg := by
  unfold relational
  split <;> decide

theorem additive_ne_neg (k : Kind) : additive k ≠ .neg := by
  unfold additive
  split <;> decide

theorem multiplicative_ne_neg (k : Kind) : multiplicative k ≠ .neg := by
  unfold multiplicative
  split <;> decide

theorem lvalue_runs :
    Runs n E L (lvalue recover) (fun e t => e.IsTarget L ∧ t.Waits recover) s := by
  refine .attempt (fun l hl => hl) fun l t hl _ hk => ?_
  have hident : t.stream.head.kind = .identifier := KindSet.mem_braces.mp hk
  refine .name hident fun x => ?_
  refine .look fun _ => .bind (.expect hident) fun _ _ _ _ => ?_
  exact .pure hl

section

variable {b : Nat} {inside : KindSet → Reader Expression}
  (hinside : ∀ r (t : ReaderState), b ≤ t.nesting →
    Runs n E L (inside r) (fun e u => e.Proper L ∧ u.Waits r) t)
include hinside

theorem factorOver_runs (hb : b ≤ s.nesting + 1) :
    Runs n E L (factorOver inside recover) (fun e t => e.Proper L ∧ t.Waits recover) s := by
  refine .attempt (fun l hl => hl) fun l t hl hnesting hk => .look fun ht => ?_
  rcases Starts.mem_factor hk with hk | hk | hk
  · rw [hk]
    exact lvalue_runs.post fun e u _ h => h.1.proper
  · rw [hk]
    refine .number hk fun x => ?_
    exact .bind (.expect hk) fun _ _ _ _ => .pure hl
  · rw [hk]
    refine .bind (.expect hk) fun _ u hu _ => .look fun hu' => ?_
    by_cases hlimit : maxNesting ≤ u.nesting
    · rw [if_pos (decide_eq_true hlimit)]
      refine .bind (.report hl) fun _ _ _ _ => .bind .skipParenthesised fun _ _ _ _ => ?_
      exact .pure hl
    · rw [if_neg (by simpa using hlimit)]
      refine .bind (.deeper (P := fun e => e.Proper L) (Nat.lt_of_not_le hlimit) fun v hv => ?_)
        fun e v _ he => ?_
      · refine (hinside _ v ?_).post fun e w _ h => h.1
        rw [hv, hu.nesting, hnesting]
        exact hb
      · exact .bind .demand fun _ _ _ _ => .pure he

omit hinside in
theorem joined_runs {kinds : KindSet} {operator : Kind → Operator} {part : Reader Expression}
    {first : Expression} (hoperator : ∀ k, operator k ≠ .neg)
    (hpart : ∀ t : ReaderState, t.nesting = s.nesting →
      Runs n E L part (fun e _ => e.Proper L) t) (hfirst : first.Proper L) :
    Runs n E L (joined kinds operator part first) (fun e _ => e.Proper L) s := by
  refine .whileIn hfirst fun left t hleft hnesting _ => .look fun ht => ?_
  refine .bind (.expect rfl) fun _ u hu _ => ?_
  refine .bind (hpart u (hu.nesting.trans hnesting)) fun right _ _ hright => ?_
  exact .pure ⟨ht.within.head, hoperator _, hleft, hright⟩

theorem termOver_runs (hb : b ≤ s.nesting + 1) :
    Runs n E L (termOver inside recover) (fun e t => e.Proper L ∧ t.Waits recover) s := by
  refine .attempt (fun l hl => hl) fun l t _ hnesting _ => ?_
  have hfactor : ∀ u : ReaderState, u.nesting = t.nesting →
      Runs n E L (factorOver inside (recover ∪ multiplicativeKinds)) (fun e _ => e.Proper L) u :=
    fun u hu => (factorOver_runs hinside (by rw [hu, hnesting]; exact hb)).post
      fun _ _ _ h => h.1
  refine .bind (hfactor t rfl) fun first u hu hfirst => ?_
  exact joined_runs multiplicative_ne_neg (fun v hv => hfactor v (hv.trans hu.nesting)) hfirst

omit hinside in
theorem leadingSign_runs : Runs n E L leadingSign (fun _ _ => True) s := by
  refine .look fun _ => ?_
  split
  · exact .bind (.expect rfl) fun _ _ _ _ => .pure trivial
  · exact .pure trivial

theorem expressionOver_runs (hb : b ≤ s.nesting + 1) :
    Runs n E L (expressionOver inside recover) (fun e t => e.Proper L ∧ t.Waits recover) s := by
  refine .attempt (fun l hl => hl) fun l t hl hnesting _ => ?_
  have hterm : ∀ u : ReaderState, u.nesting = t.nesting →
      Runs n E L (termOver inside (recover ∪ additiveKinds)) (fun e _ => e.Proper L) u :=
    fun u hu => (termOver_runs hinside (by rw [hu, hnesting]; exact hb)).post fun _ _ _ h => h.1
  refine .bind leadingSign_runs fun negative u hu _ => ?_
  refine .bind (hterm u hu.nesting) fun first v hv hfirst => ?_
  refine joined_runs additive_ne_neg
    (fun w hw => hterm w (hw.trans (hv.nesting.trans hu.nesting))) ?_
  cases negative with
  | true => exact ⟨hl, rfl, hfirst⟩
  | false => exact hfirst

omit hinside in
theorem relOp_runs (hk : s.stream.head.kind ∈ relationalKinds) :
    Runs n E L (relOp recover) (fun op t => op ≠ .neg ∧ t.Waits recover) s :=
  .certainly hk fun _ _ _ _ _ => .look fun _ =>
    .bind (.expect rfl) fun _ _ _ _ => .pure (relational_ne_neg _)

theorem conditionOver_runs (hb : b ≤ s.nesting + 1) :
    Runs n E L (conditionOver inside recover) (fun e t => e.Proper L ∧ t.Waits recover) s := by
  refine .attempt (fun l hl => hl) fun l t _ hnesting _ => ?_
  have hexpression : ∀ r (u : ReaderState), u.nesting = t.nesting →
      Runs n E L (expressionOver inside r) (fun e _ => e.Proper L) u :=
    fun r u hu => (expressionOver_runs hinside (by rw [hu, hnesting]; exact hb)).post
      fun _ _ _ h => h.1
  refine .bind (hexpression _ t rfl) fun left u hu hleft => .look fun hu' => ?_
  by_cases hk : u.stream.head.kind ∈ relationalKinds
  · rw [if_pos (Stream.headIn_iff.mpr hk)]
    refine .look fun _ => .bind (relOp_runs hk) fun op v hv hop => ?_
    refine .bind (hexpression _ v (hv.nesting.trans hu.nesting)) fun right _ _ hright => ?_
    exact .pure ⟨hu'.within.head, hop.1, hleft, hright⟩
  · rw [if_neg (mt Stream.headIn_iff.mp hk)]
    exact .pure hleft

end

/-- The levels that are counted down last as long as the nesting stays within its limit. -/
theorem conditionWithin_runs (k : Nat) : ∀ (recover : KindSet) (s : ReaderState),
    maxNesting + 1 - k ≤ s.nesting →
      Runs n E L (conditionWithin k recover) (fun e t => e.Proper L ∧ t.Waits recover) s := by
  induction k with
  | zero =>
    -- `hb` would put the nesting of a sound state above its limit
    intro recover s hb hs _
    exact absurd (Nat.le_trans hb hs.nesting) (Nat.not_succ_le_self _)
  | succ k ih =>
    intro recover s hb
    exact conditionOver_runs ih (by omega)

theorem condition_runs :
    Runs n E L (condition recover) (fun e t => e.Proper L ∧ t.Waits recover) s :=
  conditionOver_runs (conditionWithin_runs maxNesting) (by omega)

theorem expression_runs :
    Runs n E L (expression recover) (fun e t => e.Proper L ∧ t.Waits recover) s :=
  expressionOver_runs (conditionWithin_runs maxNesting) (by omega)

end PlZero.Grammar
