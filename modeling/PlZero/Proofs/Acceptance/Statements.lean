/-
  PlZero/Proofs/Acceptance/Statements.lean
  ========================================
  **Statements that are read without a complaint** are derived by the grammar.
-/
import PlZero.Proofs.Acceptance.Expressions
import PlZero.Proofs.Contract.Statements

namespace PlZero.Grammar

open Reader

variable {recover : KindSet} {s : ReaderState}

/-! ### Assignments and simple statements -/

theorem assignment_reads (h : s.nesting = 0) : Reads (assignment recover)
    (fun _ ts => ∃ c : Derivation.Assignment, c.nesting ≤ maxNesting ∧ ts = c.tokens) s := by
  refine .attempt fun l t ht _ => ?_
  have h₀ : t.nesting = 0 := ht.trans h
  refine ((Reads.separated (P := fun _ => True) (fun _ _ => .demand (by decide)) fun _ _ =>
    lvalue_reads.mono fun _ _ ⟨name, hname⟩ => ⟨name, trivial, hname⟩).bind
      fun targets u hu => .look ((Reads.demand (by decide)).bind fun _ v hv =>
        (Reads.separated (P := fun c : Derivation.Condition => c.nesting ≤ maxNesting)
          (fun _ _ => .demand (by decide)) fun w hw =>
            condition_reads (by rw [hw, hv, hu, h₀])).bind fun values _ _ =>
              Reads.reportUnless.bind fun _ _ _ => .look .pure)).mono ?_
  rintro _ _ ⟨_, _, _, ⟨target, targets, -, -, rfl⟩, ⟨_, _, _, ⟨sign, rfl⟩, ⟨_, _, _,
    ⟨value, values, hvalue, hvalues, rfl⟩, ⟨_, _, _, rfl, rfl, rfl⟩, rfl⟩, rfl⟩, rfl⟩
  refine ⟨⟨target, targets, sign, value, values⟩, ?_, by simp [Derivation.Assignment.tokens]⟩
  exact Nat.max_le.mpr ⟨hvalue, Derivation.most_le hvalues⟩

theorem readStatement_reads (hk : s.stream.head.kind = .kwRead) :
    Reads (readStatement recover) (fun _ ts =>
      ∃ c : Derivation.Statement, c.nesting ≤ maxNesting ∧ ts = c.tokens) s := by
  refine .certainly (KindSet.mem_braces.mpr hk) fun l t _ hk => ?_
  refine ((Reads.expect (KindSet.mem_braces.mp hk) (by decide)).bind fun _ _ _ =>
    lvalue_reads.bind fun _ _ _ => .pure).mono ?_
  rintro _ _ ⟨_, _, _, ⟨keyword, rfl⟩, ⟨_, _, _, ⟨target, rfl⟩, rfl, rfl⟩, rfl⟩
  exact ⟨.read keyword target, Nat.zero_le _, rfl⟩

theorem writeStatement_reads (h : s.nesting = 0) (hk : s.stream.head.kind = .kwWrite) :
    Reads (writeStatement recover) (fun _ ts =>
      ∃ c : Derivation.Statement, c.nesting ≤ maxNesting ∧ ts = c.tokens) s := by
  refine .certainly (KindSet.mem_braces.mpr hk) fun l t ht hk => ?_
  refine ((Reads.expect (KindSet.mem_braces.mp hk) (by decide)).bind fun _ u hu =>
    (expression_reads (by rw [hu, ht, h])).bind fun _ _ _ => .pure).mono ?_
  rintro _ _ ⟨_, _, _, ⟨keyword, rfl⟩, ⟨_, _, _, ⟨value, hvalue, rfl⟩, rfl, rfl⟩, rfl⟩
  exact ⟨.write keyword value, hvalue, by simp [Derivation.Statement.tokens]⟩

theorem nameAndParens_reads : Reads (nameAndParens recover) (fun _ ts =>
    ∃ (name : Derivation.TokenOf .identifier) (opening : Derivation.TokenOf .leftParen)
      (closing : Derivation.TokenOf .rightParen),
      ts = [name.val, opening.val, closing.val]) s := by
  refine ((Reads.demand (by decide)).bind fun _ _ _ => (Reads.demand (by decide)).bind
    fun _ _ _ => .demand (by decide)).mono ?_
  rintro _ _ ⟨_, _, _, ⟨name, rfl⟩, ⟨_, _, _, ⟨opening, rfl⟩, ⟨closing, rfl⟩, rfl⟩, rfl⟩
  exact ⟨name, opening, closing, rfl⟩

theorem calledName_reads : Reads calledName (fun _ ts => ts = []) s := by
  refine .look ?_
  by_cases hident : s.stream.head.kind = .identifier
  · rw [if_pos (Stream.headIs_iff.mpr hident)]
    exact fun _ => .name hident (.refl rfl)
  · rw [if_neg (mt Stream.headIs_iff.mp hident)]
    exact .pure

theorem callStatement_reads (hk : s.stream.head.kind = .kwCall) :
    Reads (callStatement recover) (fun _ ts =>
      ∃ c : Derivation.Statement, c.nesting ≤ maxNesting ∧ ts = c.tokens) s := by
  refine .certainly (KindSet.mem_braces.mpr hk) fun l t _ hk => ?_
  refine ((Reads.expect (KindSet.mem_braces.mp hk) (by decide)).bind fun _ _ _ =>
    calledName_reads.bind fun _ _ _ => nameAndParens_reads.bind
      fun _ _ _ => .look .pure).mono ?_
  rintro _ _ ⟨_, _, _, ⟨keyword, rfl⟩, ⟨_, _, _, rfl, ⟨_, _, _, ⟨name, opening, closing, rfl⟩,
    rfl, rfl⟩, rfl⟩, rfl⟩
  exact ⟨.call keyword name opening closing, Nat.zero_le _, rfl⟩

theorem skipStatement_reads (hk : s.stream.head.kind = .kwSkip) :
    Reads (skipStatement recover) (fun _ ts =>
      ∃ c : Derivation.Statement, c.nesting ≤ maxNesting ∧ ts = c.tokens) s := by
  refine .certainly (KindSet.mem_braces.mpr hk) fun l t _ hk => ?_
  refine ((Reads.expect (KindSet.mem_braces.mp hk) (by decide)).bind
    fun _ _ _ => .pure).mono ?_
  rintro _ _ ⟨_, _, _, ⟨keyword, rfl⟩, rfl, rfl⟩
  exact ⟨.skip keyword, Nat.zero_le _, rfl⟩

/-! ### Statements that hold statements -/

section

variable {statement : KindSet → Reader Statement}
  (hstatement : ∀ r (t : ReaderState), t.nesting = 0 → Reads (statement r) (fun _ ts =>
    ∃ c : Derivation.Statement, c.nesting ≤ maxNesting ∧ ts = c.tokens) t)
  (h : s.nesting = 0)
include hstatement h

theorem whileStatement_reads (hk : s.stream.head.kind = .kwWhile) :
    Reads (whileStatement statement recover) (fun _ ts =>
      ∃ c : Derivation.Statement, c.nesting ≤ maxNesting ∧ ts = c.tokens) s := by
  refine .certainly (KindSet.mem_braces.mpr hk) fun l t ht hk => ?_
  refine ((Reads.expect (KindSet.mem_braces.mp hk) (by decide)).bind fun _ u hu =>
    (condition_reads (by rw [hu, ht, h])).bind fun test v hv =>
      (Reads.demand (by decide)).bind fun _ w hw =>
        (hstatement _ w (by rw [hw, hv, hu, ht, h])).bind fun _ _ _ => .pure).mono ?_
  rintro _ _ ⟨_, _, _, ⟨keyword, rfl⟩, ⟨_, _, _, ⟨test, htest, rfl⟩, ⟨_, _, _, ⟨sign, rfl⟩,
    ⟨_, _, _, ⟨body, hbody, rfl⟩, rfl, rfl⟩, rfl⟩, rfl⟩, rfl⟩
  exact ⟨.repeated keyword test sign body, Nat.max_le.mpr ⟨htest, hbody⟩,
    by simp [Derivation.Statement.tokens]⟩

theorem ifStatement_reads (hk : s.stream.head.kind = .kwIf) :
    Reads (ifStatement statement recover) (fun _ ts =>
      ∃ c : Derivation.Statement, c.nesting ≤ maxNesting ∧ ts = c.tokens) s := by
  refine .certainly (KindSet.mem_braces.mpr hk) fun l t ht hk => ?_
  refine ((Reads.expect (KindSet.mem_braces.mp hk) (by decide)).bind fun _ u hu =>
    (condition_reads (by rw [hu, ht, h])).bind fun test v hv =>
      (Reads.demand (by decide)).bind fun _ w hw =>
        (hstatement _ w (by rw [hw, hv, hu, ht, h])).bind fun _ x hx =>
          (Reads.demand (by decide)).bind fun _ y hy =>
            (hstatement _ y (by rw [hy, hx, hw, hv, hu, ht, h])).bind
              fun _ _ _ => .pure).mono ?_
  rintro _ _ ⟨_, _, _, ⟨keyword, rfl⟩, ⟨_, _, _, ⟨test, htest, rfl⟩, ⟨_, _, _, ⟨thenSign, rfl⟩,
    ⟨_, _, _, ⟨thenBranch, hthen, rfl⟩, ⟨_, _, _, ⟨elseSign, rfl⟩,
      ⟨_, _, _, ⟨elseBranch, helse, rfl⟩, rfl, rfl⟩, rfl⟩, rfl⟩, rfl⟩, rfl⟩, rfl⟩
  exact ⟨.choice keyword test thenSign thenBranch elseSign elseBranch,
    Nat.max_le.mpr ⟨htest, Nat.max_le.mpr ⟨hthen, helse⟩⟩, by simp [Derivation.Statement.tokens]⟩

theorem statementList_reads : Reads (statementList statement recover) (fun _ ts =>
    ∃ c : Derivation.StatementList, c.nesting ≤ maxNesting ∧ ts = c.tokens) s := by
  refine .attempt fun l t ht _ => ?_
  refine ((Reads.separated (P := fun c : Derivation.Statement => c.nesting ≤ maxNesting)
    (fun _ hk => .expect hk (by decide)) fun u hu => hstatement _ u (by rw [hu, ht, h])).bind
      fun _ _ _ => .pure).mono ?_
  rintro _ _ ⟨_, _, _, ⟨first, more, hfirst, hmore, rfl⟩, rfl, rfl⟩
  refine ⟨.mk first more, ?_, ?_⟩
  · rw [Derivation.StatementList.nesting, Derivation.StatementList.nestingMore_eq]
    exact Nat.max_le.mpr ⟨hfirst, Derivation.most_le hmore⟩
  · rw [Derivation.StatementList.tokens, Derivation.StatementList.tokensMore_eq, List.append_nil]

theorem compoundStatement_reads : Reads (compoundStatement statement recover) (fun _ ts =>
    ∃ c : Derivation.CompoundStatement, c.nesting ≤ maxNesting ∧ ts = c.tokens) s := by
  refine .attempt fun l t ht hk => ?_
  refine ((Reads.expect (KindSet.mem_braces.mp hk) (by decide)).bind fun _ u hu =>
    (statementList_reads hstatement (by rw [hu, ht, h])).bind fun _ _ _ =>
      (Reads.demand (by decide)).bind fun _ _ _ => .pure).mono ?_
  rintro _ _ ⟨_, _, _, ⟨opening, rfl⟩, ⟨_, _, _, ⟨list, hlist, rfl⟩,
    ⟨_, _, _, ⟨closing, rfl⟩, rfl, rfl⟩, rfl⟩, rfl⟩
  exact ⟨.mk opening list closing, hlist, by simp [Derivation.CompoundStatement.tokens]⟩

theorem doBranch_reads : Reads (doBranch statement recover) (fun _ ts =>
    ∃ c : Derivation.DoBranch, c.nesting ≤ maxNesting ∧ ts = c.tokens) s := by
  refine .attempt fun l t ht hk => ?_
  have h₀ : t.nesting = 0 := ht.trans h
  refine ((condition_reads h₀).bind fun test u hu => (Reads.demand (by decide)).bind
    fun _ v hv => (statementList_reads hstatement (by rw [hv, hu, h₀])).bind (B := fun _ _ ts =>
      ∃ exits : Option (Derivation.TokenOf .kwExit), ts = exits.toList.map Subtype.val)
      fun body w _ => .look ?_).mono ?_
  · by_cases hexit : w.stream.head.kind = .kwExit
    · rw [if_pos (Stream.headIs_iff.mpr hexit)]
      refine ((Reads.expect hexit (by decide)).bind fun _ _ _ => .pure).mono ?_
      rintro _ _ ⟨_, _, _, ⟨keyword, rfl⟩, rfl, rfl⟩
      exact ⟨some keyword, rfl⟩
    · rw [if_neg (mt Stream.headIs_iff.mp hexit)]
      exact Reads.pure.mono fun _ _ h => ⟨none, h⟩
  · rintro _ _ ⟨_, _, _, ⟨test, htest, rfl⟩, ⟨_, _, _, ⟨sign, rfl⟩, ⟨_, _, _,
      ⟨body, hbody, rfl⟩, ⟨exits, rfl⟩, rfl⟩, rfl⟩, rfl⟩
    refine ⟨.mk test sign body exits, Nat.max_le.mpr ⟨htest, hbody⟩, ?_⟩
    cases exits <;> simp [Derivation.DoBranch.tokens]

theorem doStatement_reads (hk : s.stream.head.kind = .kwDo) :
    Reads (doStatement statement recover) (fun _ ts =>
      ∃ c : Derivation.Statement, c.nesting ≤ maxNesting ∧ ts = c.tokens) s := by
  refine .certainly (KindSet.mem_braces.mpr hk) fun l t ht hk => ?_
  refine ((Reads.expect (KindSet.mem_braces.mp hk) (by decide)).bind fun _ u hu =>
    (Reads.separated (P := fun c : Derivation.DoBranch => c.nesting ≤ maxNesting)
      (fun _ hk => .expect hk (by decide)) fun v hv =>
        doBranch_reads hstatement (by rw [hv, hu, ht, h])).bind fun _ _ _ =>
          (Reads.demand (by decide)).bind fun _ _ _ => .pure).mono ?_
  rintro _ _ ⟨_, _, _, ⟨keyword, rfl⟩, ⟨_, _, _, ⟨first, more, hfirst, hmore, rfl⟩,
    ⟨_, _, _, ⟨closing, rfl⟩, rfl, rfl⟩, rfl⟩, rfl⟩
  refine ⟨.guarded keyword first more closing, ?_, ?_⟩
  · rw [Derivation.Statement.nesting, Derivation.DoBranch.nestingMore_eq]
    exact Nat.max_le.mpr ⟨hfirst, Derivation.most_le hmore⟩
  · simp [Derivation.Statement.tokens, Derivation.DoBranch.tokensMore_eq]

theorem statementOver_reads : Reads (statementOver statement recover) (fun _ ts =>
    ∃ c : Derivation.Statement, c.nesting ≤ maxNesting ∧ ts = c.tokens) s := by
  refine .attempt fun l t ht hk => .look ?_
  have h₀ : t.nesting = 0 := ht.trans h
  rcases Starts.mem_statement hk with hk | hk | hk | hk | hk | hk | hk | hk | hk
  · rw [hk]
    refine (assignment_reads h₀).mono ?_
    rintro _ _ ⟨c, hc, rfl⟩
    exact ⟨.assign c, hc, rfl⟩
  · rw [hk]
    exact whileStatement_reads hstatement h₀ hk
  · rw [hk]
    exact ifStatement_reads hstatement h₀ hk
  · rw [hk]
    exact readStatement_reads hk
  · rw [hk]
    exact writeStatement_reads h₀ hk
  · rw [hk]
    exact callStatement_reads hk
  · rw [hk]
    refine (compoundStatement_reads hstatement h₀).mono ?_
    rintro _ _ ⟨c, hc, rfl⟩
    exact ⟨.compound c, hc, rfl⟩
  · rw [hk]
    exact skipStatement_reads hk
  · rw [hk]
    exact doStatement_reads hstatement h₀ hk

end

theorem statementWithin_reads (k : Nat) : ∀ (recover : KindSet) (s : ReaderState),
    s.nesting = 0 → Reads (statementWithin k recover) (fun _ ts =>
      ∃ c : Derivation.Statement, c.nesting ≤ maxNesting ∧ ts = c.tokens) s := by
  induction k with
  | zero => exact fun _ _ _ => .tooDeep
  | succ k ih => exact fun _ _ h => statementOver_reads ih h

end PlZero.Grammar
