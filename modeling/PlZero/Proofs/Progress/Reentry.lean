/-
  PlZero/Proofs/Progress/Reentry.lean
  ===================================
  **Rules are entered again behind a token.**  Conditions, constants, statements and blocks nest
  in themselves.  Their rules are given the reader of what nests in them, so what they do with
  it shows in what they are: `AgreeBelow n m m'` says that two readers do the same in every
  state with fewer than `n` tokens ahead, and a rule over readers that agree below `n` agrees
  below `n + 1` with the rule over the others (`statementOver_agree` and so on).  It therefore
  never runs the reader before a token was taken.

  This is the guard that makes the recursion well-founded.  How deep the readers were built
  does not matter once it exceeds the number of tokens (`blockWithin_agree`).
-/
import PlZero.Proofs.Progress.Loops

namespace PlZero.Reader

/-- Two readers do the same wherever fewer than `n` tokens are ahead. -/
def AgreeBelow {α : Type} (n : Nat) (m m' : Reader α) : Prop :=
  ∀ s : ReaderState, s.stream.ahead.length < n → m s = m' s

/-- A reader gives no token back. -/
def Shrinks {α : Type} (m : Reader α) : Prop :=
  ∀ s, Ends (fun _ _ => True) m (fun _ t => t.stream.ahead.length ≤ s.stream.ahead.length) s

variable {α β : Type} {n : Nat} {m m' : Reader α} {f f' : α → Reader β} {recover : KindSet}

theorem Steady.shrinks (h : ∀ s, Steady m s) : Shrinks m :=
  fun s => (h s).post fun _ _ ht => ht.stream.ahead_le

/-! ### Logic -/

theorem AgreeBelow.refl : AgreeBelow n m m := fun _ _ => rfl

theorem AgreeBelow.bind (hm : AgreeBelow n m m') (hshrinks : Shrinks m)
    (hf : ∀ a, AgreeBelow n (f a) (f' a)) : AgreeBelow n (m >>= f) (m' >>= f') := by
  intro s hs
  have hsame := hm s hs
  rcases (hshrinks s).cases with ⟨a, t, hrun, hle⟩ | ⟨e, t, hrun, -⟩
  · have hfurther := hf a t (Nat.lt_of_le_of_lt hle hs)
    simp only [Bind.bind, EStateM.bind, ← hsame, hrun, hfurther]
  · simp only [Bind.bind, EStateM.bind, ← hsame, hrun]

/-- The same reader in front. -/
theorem AgreeBelow.then (hshrinks : Shrinks m) (hf : ∀ a, AgreeBelow n (f a) (f' a)) :
    AgreeBelow n (m >>= f) (m >>= f') :=
  .bind .refl hshrinks hf

/-- The same reader behind. -/
theorem AgreeBelow.first (hm : AgreeBelow n m m') : AgreeBelow n (m >>= f) (m' >>= f) := by
  intro s hs
  simp only [Bind.bind, EStateM.bind, hm s hs]

/-- Behind a token that is taken, fewer are ahead. -/
theorem AgreeBelow.behind (hm : ∀ s, Advances m s) (hf : ∀ a, AgreeBelow n (f a) (f' a)) :
    AgreeBelow (n + 1) (m >>= f) (m >>= f') := by
  intro s hs
  rcases (hm s).cases with ⟨a, t, hrun, hlt⟩ | ⟨e, t, hrun, -⟩
  · have hfurther := hf a t (Nat.lt_of_lt_of_le hlt (Nat.le_of_lt_succ hs))
    simp only [Bind.bind, EStateM.bind, hrun, hfurther]
  · simp only [Bind.bind, EStateM.bind, hrun]

theorem AgreeBelow.look {look : ReaderState → α} (hf : ∀ a, AgreeBelow n (f a) (f' a)) :
    AgreeBelow n (reads look >>= f) (reads look >>= f') :=
  .then (fun _ => Nat.le_refl _) hf

theorem AgreeBelow.deeper (h : AgreeBelow n m m') : AgreeBelow n (deeper m) (deeper m') := by
  apply AgreeBelow.then (fun _ => Nat.le_refl _)
  intro _
  exact h.first

/-! ### Rule brackets -/

theorem beginRule_shrinks {rule : String} {starts : KindSet} :
    Shrinks (onStream (Stream.beginRule rule starts recover)) := by
  intro s
  apply Ends.of_returns
  intro b u hu
  rcases Stream.beginRule_course hu with ⟨-, v, hreach, -, rfl⟩ | ⟨-, hreach⟩
  · exact hreach.ahead_le
  · exact hreach.ahead_le

theorem beginCertain_shrinks {rule : String} {starts : KindSet} :
    Shrinks (onStream (Stream.beginCertain rule starts)) := by
  intro s
  apply Ends.of_returns
  intro _ u hu
  obtain ⟨-, rfl⟩ := Stream.beginCertain_ok hu
  exact Nat.le_refl _

theorem AgreeBelow.attempt {r : Rule} {placeholder : Location → α}
    {body body' : Location → Reader α} (h : ∀ l, AgreeBelow n (body l) (body' l)) :
    AgreeBelow n (attempt r recover placeholder body) (attempt r recover placeholder body') := by
  apply AgreeBelow.look
  intro l
  apply AgreeBelow.then beginRule_shrinks
  intro begun
  cases begun with
  | true => exact (h l).first
  | false => exact .refl

theorem AgreeBelow.certainly {r : Rule} {body body' : Location → Reader α}
    (h : ∀ l, AgreeBelow n (body l) (body' l)) :
    AgreeBelow n (certainly r recover body) (certainly r recover body') := by
  apply AgreeBelow.then beginCertain_shrinks
  intro _
  apply AgreeBelow.look
  intro l
  exact (h l).first

/-! ### Loops -/

theorem AgreeBelow.whileIn {kinds : KindSet} {turn turn' : α → Reader α}
    (hadvances : ∀ a t, t.stream.head.kind ∈ kinds → Advances (turn a) t)
    (h : ∀ a, AgreeBelow n (turn a) (turn' a)) (a : α) :
    AgreeBelow n (whileIn kinds turn a) (whileIn kinds turn' a) := by
  apply AgreeBelow.look
  intro scans s hs
  by_cases hin : s.stream.head.kind ∈ kinds
  · induction scans generalizing a s with
    | nil =>
      rw [repeatWhile_last hin, repeatWhile_last hin]
      exact h a s hs
    | cons x scans ih =>
      rw [repeatWhile_next hin, repeatWhile_next hin]
      have hsame := h a s hs
      rcases (hadvances a s hin).cases with ⟨b, t, hrun, hlt⟩ | ⟨e, t, hrun, -⟩
      · have hfurther : repeatWhile kinds turn scans b t = repeatWhile kinds turn' scans b t := by
          by_cases hagain : t.stream.head.kind ∈ kinds
          · exact ih b t (Nat.lt_trans hlt hs) hagain
          · rw [repeatWhile_out hagain, repeatWhile_out hagain]
        simp only [Bind.bind, EStateM.bind, ← hsame, hrun, hfurther]
      · simp only [Bind.bind, EStateM.bind, ← hsame, hrun]
  · rw [repeatWhile_out hin, repeatWhile_out hin]

theorem AgreeBelow.inScope {owner : Nat} {body body' : Nat → Reader α}
    (h : ∀ scope, AgreeBelow n (body scope) (body' scope)) :
    AgreeBelow n (inScope owner body) (inScope owner body') := by
  have henter : Shrinks (enterScope owner) := by
    intro s
    exact Ends.enterScope fun _ => Nat.le_refl _
  apply AgreeBelow.then henter
  intro scope
  exact (h scope).first

end PlZero.Reader

namespace PlZero.Grammar

open Reader

variable {n : Nat} {recover : KindSet}

/-! ### Parts and operands -/

theorem further_agree {α : Type} {pass : Reader Unit} {part part' : Reader α}
    {found : List α} (hpass : Shrinks pass) (hpart : AgreeBelow n part part') :
    AgreeBelow n (further pass part found) (further pass part' found) := by
  apply AgreeBelow.then hpass
  intro _
  exact hpart.first

theorem separated_agree {α : Type} {sign : Kind} {part part' : Reader α}
    (hsign : sign ≠ .endOfFile) (hsteady : ∀ t, Steady part t) (hpart : AgreeBelow n part part') :
    AgreeBelow n (separated sign (expect sign) part) (separated sign (expect sign) part') := by
  have hpass : Shrinks (expect sign) := Steady.shrinks fun _ => .expect hsign
  rw [separated_eq, separated_eq]
  apply AgreeBelow.bind hpart (Steady.shrinks hsteady)
  intro first
  apply AgreeBelow.first
  apply AgreeBelow.whileIn
  · intro found t _
    exact further_advances (.expect hsign) hsteady
  · intro found
    exact further_agree hpass hpart

theorem expect_head_shrinks {k : Kind} : Shrinks (expect k) := by
  intro s
  apply Ends.of_returns
  intro _ u hu
  obtain ⟨-, rfl⟩ := Stream.expect_ok hu
  show s.stream.consumed.ahead.length ≤ _
  rw [Stream.ahead_consumed, List.length_tail]
  exact Nat.sub_le _ _

theorem joined_agree {kinds : KindSet} {operator : Kind → Operator}
    {part part' : Reader Expression} {first : Expression} (hkinds : .endOfFile ∉ kinds)
    (hsteady : ∀ t, Steady part t) (hpart : AgreeBelow n part part') :
    AgreeBelow n (joined kinds operator part first) (joined kinds operator part' first) := by
  rw [joined_eq, joined_eq]
  apply AgreeBelow.whileIn
  · intro left t hin
    exact operand_advances hkinds hin hsteady
  · intro left
    apply AgreeBelow.look
    intro sign
    apply AgreeBelow.then expect_head_shrinks
    intro _
    exact hpart.first

/-! ### Conditions -/

section

variable {inside inside' : KindSet → Reader Expression} (hsteady : ∀ r t, Steady (inside r) t)
  (h : ∀ r, AgreeBelow n (inside r) (inside' r))
include h

/-- What stands between parentheses is read behind the first of them. -/
theorem factorOver_agree :
    AgreeBelow (n + 1) (factorOver inside recover) (factorOver inside' recover) := by
  apply AgreeBelow.attempt
  intro l
  apply AgreeBelow.look
  intro t
  split
  · exact .refl
  · exact .refl
  · apply AgreeBelow.behind (fun _ => .expect (by decide))
    intro _
    apply AgreeBelow.look
    intro limit
    split
    · exact .refl
    · exact (AgreeBelow.deeper (h _)).first
  · exact .refl

include hsteady

theorem termOver_agree :
    AgreeBelow (n + 1) (termOver inside recover) (termOver inside' recover) := by
  apply AgreeBelow.attempt
  intro l
  apply AgreeBelow.bind (factorOver_agree h) (Steady.shrinks fun _ => factorOver_steady hsteady)
  intro first
  exact joined_agree (by decide) (fun _ => factorOver_steady hsteady) (factorOver_agree h)

theorem expressionOver_agree :
    AgreeBelow (n + 1) (expressionOver inside recover) (expressionOver inside' recover) := by
  apply AgreeBelow.attempt
  intro l
  apply AgreeBelow.then (Steady.shrinks fun _ => leadingSign_steady)
  intro negative
  apply AgreeBelow.bind (termOver_agree hsteady h) (Steady.shrinks fun _ => termOver_steady hsteady)
  intro first
  exact joined_agree (by decide) (fun _ => termOver_steady hsteady) (termOver_agree hsteady h)

theorem conditionOver_agree :
    AgreeBelow (n + 1) (conditionOver inside recover) (conditionOver inside' recover) := by
  apply AgreeBelow.attempt
  intro l
  apply AgreeBelow.bind (expressionOver_agree hsteady h)
    (Steady.shrinks fun _ => expressionOver_steady hsteady)
  intro left
  apply AgreeBelow.look
  intro more
  split
  · apply AgreeBelow.look
    intro l
    apply AgreeBelow.then (Steady.shrinks fun _ => relOp_steady)
    intro op
    exact (expressionOver_agree hsteady h).first
  · exact .refl

end

/-- The constant behind a sign is read behind the sign. -/
theorem constantOver_agree {operand operand' : KindSet → Reader Constant}
    (h : ∀ r, AgreeBelow n (operand r) (operand' r)) :
    AgreeBelow (n + 1) (constantOver operand recover) (constantOver operand' recover) := by
  apply AgreeBelow.look
  intro scope
  apply AgreeBelow.attempt
  intro l
  apply AgreeBelow.look
  intro t
  split
  · exact .refl
  · exact .refl
  · apply AgreeBelow.behind (fun _ => .expect (by decide))
    intro _
    apply AgreeBelow.look
    intro limit
    split
    · exact .refl
    · exact (AgreeBelow.deeper (h _)).first
  · exact .refl

/-! ### Statements -/

section

variable {statement statement' : KindSet → Reader Statement}
  (hsteady : ∀ r t, Steady (statement r) t) (h : ∀ r, AgreeBelow n (statement r) (statement' r))
include h

theorem whileStatement_agree : AgreeBelow (n + 1) (whileStatement statement recover)
    (whileStatement statement' recover) := by
  apply AgreeBelow.certainly
  intro l
  apply AgreeBelow.behind (fun _ => .expect (by decide))
  intro _
  apply AgreeBelow.then (Steady.shrinks fun _ => condition_steady)
  intro test
  apply AgreeBelow.then (Steady.shrinks fun _ => .demand (by decide))
  intro _
  exact (h _).first

include hsteady

theorem ifStatement_agree : AgreeBelow (n + 1) (ifStatement statement recover)
    (ifStatement statement' recover) := by
  apply AgreeBelow.certainly
  intro l
  apply AgreeBelow.behind (fun _ => .expect (by decide))
  intro _
  apply AgreeBelow.then (Steady.shrinks fun _ => condition_steady)
  intro test
  apply AgreeBelow.then (Steady.shrinks fun _ => .demand (by decide))
  intro _
  apply AgreeBelow.bind (h _) (Steady.shrinks (hsteady _))
  intro thenBranch
  apply AgreeBelow.then (Steady.shrinks fun _ => .demand (by decide))
  intro _
  exact (h _).first

/-- A list may begin with a statement, so it takes no token in front of it. -/
theorem statementList_agree : AgreeBelow n (statementList statement recover)
    (statementList statement' recover) := by
  apply AgreeBelow.attempt
  intro l
  exact (separated_agree (by decide) (hsteady _) (h _)).first

theorem compoundStatement_agree : AgreeBelow (n + 1) (compoundStatement statement recover)
    (compoundStatement statement' recover) := by
  apply AgreeBelow.attempt
  intro l
  apply AgreeBelow.behind (fun _ => .expect (by decide))
  intro _
  exact (statementList_agree hsteady h).first

theorem doBranch_agree : AgreeBelow n (doBranch statement recover)
    (doBranch statement' recover) := by
  apply AgreeBelow.attempt
  intro l
  apply AgreeBelow.then (Steady.shrinks fun _ => condition_steady)
  intro test
  apply AgreeBelow.then (Steady.shrinks fun _ => .demand (by decide))
  intro _
  exact (statementList_agree hsteady h).first

theorem doStatement_agree : AgreeBelow (n + 1) (doStatement statement recover)
    (doStatement statement' recover) := by
  apply AgreeBelow.certainly
  intro l
  apply AgreeBelow.behind (fun _ => .expect (by decide))
  intro _
  exact (separated_agree (by decide) (fun _ => doBranch_steady hsteady)
    (doBranch_agree hsteady h)).first

theorem statementOver_agree : AgreeBelow (n + 1) (statementOver statement recover)
    (statementOver statement' recover) := by
  apply AgreeBelow.attempt
  intro l
  apply AgreeBelow.look
  intro t
  split
  · exact .refl
  · exact whileStatement_agree h
  · exact ifStatement_agree hsteady h
  · exact .refl
  · exact .refl
  · exact .refl
  · exact compoundStatement_agree hsteady h
  · exact .refl
  · exact doStatement_agree hsteady h
  · exact .refl

end

/-! ### Blocks -/

section

variable {block block' : Nat → KindSet → Reader Block}
  (hsteady : ∀ scope r t, Steady (block scope r) t)
  (h : ∀ scope r, AgreeBelow n (block scope r) (block' scope r))
include h

theorem procedureDefinition_agree : AgreeBelow (n + 1) (procedureDefinition block recover)
    (procedureDefinition block' recover) := by
  apply AgreeBelow.certainly
  intro l
  apply AgreeBelow.behind (fun _ => procedureHeader_advances)
  intro entry
  apply AgreeBelow.first
  apply AgreeBelow.inScope
  intro scope
  apply AgreeBelow.then (Steady.shrinks fun _ => .demand (by decide))
  intro _
  exact h _ _

theorem declaration_agree : AgreeBelow (n + 1) (declaration block recover)
    (declaration block' recover) := by
  apply AgreeBelow.certainly
  intro l
  apply AgreeBelow.look
  intro t
  split
  · exact .refl
  · exact .refl
  · exact .refl
  · exact (procedureDefinition_agree h).first
  · exact .refl

include hsteady

theorem blockOver_agree {statement statement' : KindSet → Reader Statement} {scope : Nat}
    (hstatement : ∀ r t, Steady (statement r) t)
    (h' : ∀ r, AgreeBelow n (statement r) (statement' r)) :
    AgreeBelow (n + 1) (blockOver statement block scope recover)
      (blockOver statement' block' scope recover) := by
  rw [blockOver_eq, blockOver_eq]
  apply AgreeBelow.attempt
  intro l
  have hloop : Shrinks (whileIn Starts.declaration
      (furtherDeclaration block (recover ∪ Starts.block)) []) := by
    apply Steady.shrinks
    intro s
    apply Steady.whileIn
    intro found t _
    exact furtherDeclaration_steady hsteady
  apply AgreeBelow.bind _ hloop
  · intro found
    exact (compoundStatement_agree hstatement h').first
  · apply AgreeBelow.whileIn
    · exact fun _ _ _ => furtherDeclaration_advances hsteady
    · exact fun _ => (declaration_agree h).first

end

/-! ### Levels -/

/-- How often the rule of statements was applied makes no difference below as many tokens. -/
theorem statements_agree {f f' : Nat → KindSet → Reader Statement}
    (hf : ∀ i r, f (i + 1) r = statementOver (f i) r)
    (hf' : ∀ i r, f' (i + 1) r = statementOver (f' i) r)
    (hsteady : ∀ i r t, Steady (f i r) t) :
    ∀ k i j, k ≤ i → k ≤ j → ∀ r, AgreeBelow k (f i r) (f' j r) := by
  intro k
  induction k with
  | zero => exact fun _ _ _ _ _ _ hnone => absurd hnone (Nat.not_lt_zero _)
  | succ k ih =>
    intro i j hi hj r
    obtain ⟨i, rfl⟩ : ∃ i', i = i' + 1 := ⟨i - 1, by omega⟩
    obtain ⟨j, rfl⟩ : ∃ j', j = j' + 1 := ⟨j - 1, by omega⟩
    rw [hf, hf']
    exact statementOver_agree (hsteady i) (ih i j (by omega) (by omega))

/-- The same for blocks, whose statements are built as often. -/
theorem blocks_agree {f f' : Nat → KindSet → Reader Statement}
    {b b' : Nat → Nat → KindSet → Reader Block}
    (hb : ∀ i scope r, b (i + 1) scope r = blockOver (f i) (b i) scope r)
    (hb' : ∀ i scope r, b' (i + 1) scope r = blockOver (f' i) (b' i) scope r)
    (hsteady : ∀ i r t, Steady (f i r) t) (hblock : ∀ i scope r t, Steady (b i scope r) t)
    (h : ∀ k i j, k ≤ i → k ≤ j → ∀ r, AgreeBelow k (f i r) (f' j r)) :
    ∀ k i j, k ≤ i → k ≤ j → ∀ scope r, AgreeBelow k (b i scope r) (b' j scope r) := by
  intro k
  induction k with
  | zero => exact fun _ _ _ _ _ _ _ hnone => absurd hnone (Nat.not_lt_zero _)
  | succ k ih =>
    intro i j hi hj scope r
    obtain ⟨i, rfl⟩ : ∃ i', i = i' + 1 := ⟨i - 1, by omega⟩
    obtain ⟨j, rfl⟩ : ∃ j', j = j' + 1 := ⟨j - 1, by omega⟩
    rw [hb, hb']
    exact blockOver_agree (hblock i) (ih i j (by omega) (by omega)) (hsteady i)
      (h k i j (by omega) (by omega))

end PlZero.Grammar
