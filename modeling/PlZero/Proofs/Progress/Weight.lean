/-
  PlZero/Proofs/Progress/Weight.lean
  ==================================
  **Every token pays for what is reported around it.**  The weight of a stream is the number of
  its diagnostics and a credit for every token ahead.  A report adds one to it, and a token that
  is taken gives up its credit, less the one diagnostic that the next token may bring along.
  `Costs w W k c m s` says that a run ends with a weight of at most `W + c`, or is aborted with
  one of at most `W + k`; with `W` the weight before the run these are its price.

  The rules add up prices along a body (`Costs.step`).  A loop costs nothing if a turn does not
  (`whileIn_costs`), and rules that nest in themselves do so behind a token, whose credit is more
  than what a rule can cost.
-/
import PlZero.Proofs.Progress.Loops

namespace PlZero

/-! ### Prices -/

/-- A run ends with a weight of at most `W + c`, or is aborted with one of at most `W + k`. -/
def Costs {σ α : Type} (w : σ → Int) (W k c : Int) (m : EStateM Abort σ α) (s : σ) : Prop :=
  match m s with
  | .ok _ t => w t ≤ W + c
  | .error _ t => w t ≤ W + k

section

variable {σ α β : Type} {w : σ → Int} {W p k c k₁ c₁ : Int} {m : EStateM Abort σ α}
  {f : α → EStateM Abort σ β} {s : σ}

theorem Costs.of_ok {a : α} {t : σ} (hm : m s = .ok a t) (h : w t ≤ W + c) : Costs w W k c m s := by
  unfold Costs
  rw [hm]
  exact h

theorem Costs.of_error {e : Abort} {t : σ} (hm : m s = .error e t) (h : w t ≤ W + k) :
    Costs w W k c m s := by
  unfold Costs
  rw [hm]
  exact h

theorem Costs.ok (h : Costs w W k c m s) {a : α} {t : σ} (hm : m s = .ok a t) : w t ≤ W + c := by
  unfold Costs at h
  rw [hm] at h
  exact h

theorem Costs.error (h : Costs w W k c m s) {e : Abort} {t : σ} (hm : m s = .error e t) :
    w t ≤ W + k := by
  unfold Costs at h
  rw [hm] at h
  exact h

/-- Where a part is aborted, so is the whole. -/
theorem Costs.of_stop {e : Abort} {t : σ} (hm : m s = .error e t) (h : w t ≤ W + k) :
    Costs w W k c (m >>= f) s := by
  have hstop : (m >>= f) s = .error e t := by simp only [Bind.bind, EStateM.bind, hm]
  exact .of_error hstop h

/-- What a part of a body costs is added to what was spent before. -/
theorem Costs.last (hs : w s ≤ W + p) (hm : Costs w (w s) k₁ c₁ m s) (hk : p + k₁ ≤ k)
    (hc : p + c₁ ≤ c) : Costs w W k c m s := by
  cases hrun : m s with
  | ok a t =>
    have ht := hm.ok hrun
    exact .of_ok hrun (by omega)
  | error e t =>
    have ht := hm.error hrun
    exact .of_error hrun (by omega)

/-- Where the outcome of a part is known, what follows is all that costs. -/
theorem Costs.of_run {a : α} {t : σ} (hm : m s = .ok a t) (h : Costs w W k c (f a) t) :
    Costs w W k c (m >>= f) s := by
  have hnext : (m >>= f) s = f a t := by simp only [Bind.bind, EStateM.bind, hm]
  unfold Costs
  rw [hnext]
  exact h

theorem Costs.step (hs : w s ≤ W + p) (hm : Costs w (w s) k₁ c₁ m s) (hk : p + k₁ ≤ k)
    (hf : ∀ a t, w t ≤ W + (p + c₁) → Costs w W k c (f a) t) : Costs w W k c (m >>= f) s := by
  cases hrun : m s with
  | ok a t =>
    have ht := hm.ok hrun
    exact .of_run hrun (hf a t (by omega))
  | error e t =>
    have ht := hm.error hrun
    exact .of_stop hrun (by omega)

theorem Costs.pure {a : α} (hs : w s ≤ W + p) (hc : p ≤ c) :
    Costs w W k c (Pure.pure a : EStateM Abort σ α) s :=
  .of_ok (a := a) (t := s) rfl (by omega)

theorem Costs.mono {k' c' : Int} (h : Costs w W k₁ c₁ m s) (hk : k₁ ≤ k') (hc : c₁ ≤ c') :
    Costs w W k' c' m s := by
  cases hrun : m s with
  | ok a t =>
    have ht := h.ok hrun
    exact .of_ok hrun (by omega)
  | error e t =>
    have ht := h.error hrun
    exact .of_error hrun (by omega)

end

/-! ### The weight of a stream -/

namespace Stream

/-- What is given up when a token is taken, even if the next one brings a diagnostic along. -/
def credit : Int := 100

/-- The number of diagnostics, and the credit of every token ahead. -/
def weight (s : Stream) : Int := s.reports.length + (credit + 1) * s.ahead.length

variable {s t : Stream} {rule : String} {starts recover find : KindSet} {k : Kind}

theorem weight_eq (hahead : t.ahead = s.ahead) (hreports : t.reports = s.reports) :
    t.weight = s.weight := by
  unfold weight
  rw [hahead, hreports]

theorem reports_le_weight (s : Stream) : (s.reports.length : Int) ≤ s.weight := by
  unfold weight credit
  omega

@[simp] theorem weight_trace (s : Stream) (a : Action) : (s.trace a).weight = s.weight := rfl

@[simp] theorem weight_opened (s : Stream) (rule : String) : (s.opened rule).weight = s.weight :=
  rfl

@[simp] theorem weight_closed (s : Stream) (rule : String) : (s.closed rule).weight = s.weight :=
  rfl

@[simp] theorem weight_noted (s : Stream) (n : Note) : (s.noted n).weight = s.weight := rfl

@[simp] theorem weight_report (s : Stream) (p : Problem) (l : Location) :
    (s.report p l).weight = s.weight + 1 := by
  unfold weight
  rw [reports_report, ahead_report, List.length_cons]
  omega

/-- A stream that ends because of a fatal diagnostic. -/
theorem weight_fatally (s : Stream) (p : Problem) (l : Location) :
    weight { s with journal := fatally p l s.journal } = s.weight + 1 := weight_report s p l

theorem reports_next_le (s : Stream) : s.next.reports.length ≤ s.reports.length + 1 := by
  unfold next
  split
  · exact Nat.le_succ _
  · split
    · rename_i t fault rest heq
      cases fault with
      | none => exact Nat.le_succ _
      | some p => exact Nat.le_refl _
    · exact Nat.le_succ _

/-- A token that is taken gives up its credit. -/
theorem weight_next (hne : s.head.kind ≠ .endOfFile) : s.next.weight ≤ s.weight - credit := by
  have hreports := reports_next_le s
  have hahead : s.ahead.length = s.next.ahead.length + 1 := by
    rw [ahead_of_ne hne, List.length_cons]
  unfold weight credit
  omega

theorem weight_next_le (s : Stream) : s.next.weight ≤ s.weight := by
  by_cases hend : s.head.kind = .endOfFile
  · have hnext : s.next = s := by simp [next, headIs, hend]
    exact Int.le_of_eq (congrArg weight hnext)
  · have hnext := weight_next hend
    unfold credit at hnext
    omega

/-! ### What the operations cost -/

/-- A stream moves on, or is ended by a digit run that it cannot read. -/
theorem advance_cases (s : Stream) :
    advance s = .ok () s.next ∨ ∃ e u, advance s = .error e u ∧ u.weight = s.weight := by
  obtain ⟨head, rest, rules, journal⟩ := s
  by_cases hend : head.kind = .endOfFile
  · left
    simp [advance, next, headIs, hend]
  · cases rest with
    | nil =>
      left
      simp [advance, next, headIs, hend]
    | cons x rest =>
      cases x with
      | overlong n =>
        right
        refine ⟨.longDigitRun n, ⟨head, [], rules, journal⟩, ?_, ?_⟩
        · simp [advance, headIs, hend]
        · exact weight_eq ahead_overlong rfl
      | token t fault =>
        left
        simp [advance, next, headIs, hend]

theorem consume_cases (s : Stream) :
    consume s = .ok () s.consumed ∨ ∃ e u, consume s = .error e u ∧ u.weight = s.weight :=
  advance_cases (s.trace (.matched s.head))

theorem consume_costs (hne : s.head.kind ≠ .endOfFile) :
    Costs weight s.weight 0 (-credit) consume s := by
  rcases consume_cases s with hrun | ⟨e, u, hrun, hu⟩
  · have hweight : s.consumed.weight ≤ s.weight - credit := weight_next (s := s.trace _) hne
    exact .of_ok hrun (by omega)
  · exact .of_error hrun (by omega)

theorem consume_costs_le (s : Stream) : Costs weight s.weight 0 0 consume s := by
  rcases consume_cases s with hrun | ⟨e, u, hrun, hu⟩
  · have hweight : s.consumed.weight ≤ s.weight := weight_next_le (s.trace _)
    exact .of_ok hrun (by omega)
  · exact .of_error hrun (by omega)

/-- A check that fails leaves one diagnostic behind. -/
theorem check_costs {α : Type} {c : Bool} {a : Assertion} {l : Location} {f : Unit → StreamM α}
    {p q : Int} (hp : 1 ≤ p) (h : c = true → Costs weight s.weight p q (f ()) s) :
    Costs weight s.weight p q (check c a l >>= f) s := by
  cases c with
  | true => exact h rfl
  | false =>
    have hrun : (check false a l >>= f) s =
        .error (.fatal (.broken a) l) { s with journal := fatally (.broken a) l s.journal } := rfl
    exact .of_error hrun (by rw [weight_fatally]; omega)

theorem name_costs (s : Stream) : Costs weight s.weight 1 0 name s :=
  check_costs (s := s) (Int.le_refl 1) fun _ => .pure (p := 0) (by omega) (Int.le_refl 0)

theorem number_costs (s : Stream) : Costs weight s.weight 1 0 number s :=
  check_costs (s := s) (Int.le_refl 1) fun _ => .pure (p := 0) (by omega) (Int.le_refl 0)

theorem expect_costs (hk : k ≠ .endOfFile) (s : Stream) :
    Costs weight s.weight 1 (-credit) (expect k) s := by
  apply check_costs (s := s) (Int.le_refl 1)
  intro hhere
  have hne : s.head.kind ≠ .endOfFile := headIs_iff.mp hhere ▸ hk
  exact (consume_costs hne).mono (by decide) (Int.le_refl _)

/-- Tokens that are skipped cost nothing. -/
theorem skipTo_costs (find : KindSet) (s : Stream) :
    Costs weight s.weight 0 0 (skipTo find) s := by
  generalize hn : s.ahead.length = n
  induction n using Nat.strongRecOn generalizing s with
  | _ n ih =>
    by_cases hover : s.head.kind ∈ find ∨ s.head.kind = .endOfFile
    · exact .of_ok (skipTo_stop hover) (by omega)
    · rw [not_or] at hover
      rcases skipTo_round hover.1 hover.2 with ⟨k, u, hrun, hahead, hreports⟩ | ⟨hrun, hfewer⟩
      · have hweight := weight_eq hahead hreports
        exact .of_error hrun (by omega)
      · have hnext : (s.trace (.skipped s.head)).next.weight ≤ s.weight + 0 := by
          have hle := weight_next_le (s.trace (.skipped s.head))
          rw [weight_trace] at hle
          omega
        unfold Costs
        rw [hrun]
        exact Costs.last hnext (ih _ (by omega) _ rfl) (by decide) (by decide)

/-- So do tokens that are passed over with their parentheses. -/
theorem closing_costs (k : Nat) (s : Stream) :
    Costs weight s.weight 0 0 (fun t : Stream => t.closing k) s := by
  generalize hn : s.ahead.length = n
  induction n using Nat.strongRecOn generalizing s k with
  | _ n ih =>
    by_cases hover : s.head.kind = .endOfFile
    · exact .of_ok (closing_over k hover) (by omega)
    · have hnext : s.consumed.weight ≤ s.weight + 0 := by
        have hle := weight_next_le (s.trace (.matched s.head))
        rw [weight_trace] at hle
        exact Int.le_trans hle (by omega)
      rcases closing_round k hover with ⟨i, u, hrun, hahead, hreports⟩ | ⟨hrun | ⟨i, hrun⟩, hfewer⟩
      · have hweight := weight_eq hahead hreports
        exact .of_error hrun (by omega)
      · exact .of_ok hrun hnext
      · have hfurther : Costs weight s.weight 0 0 (fun t : Stream => t.closing i) s.consumed :=
          Costs.last hnext (ih _ (by omega) i s.consumed rfl) (by decide) (by decide)
        unfold Costs at hfurther ⊢
        dsimp only at hfurther ⊢
        rw [hrun]
        exact hfurther

theorem skipParenthesised_costs (s : Stream) : Costs weight s.weight 0 0 skipParenthesised s :=
  closing_costs 0 s

/-- A token that is missing costs a diagnostic. -/
theorem demand_costs (k : Kind) (follow : KindSet) (s : Stream) :
    Costs weight s.weight 1 1 (demand k follow) s := by
  by_cases hhere : s.head.kind = k
  · unfold Costs
    rw [demand_here follow hhere]
    refine Costs.step (p := 0) (by omega) (consume_costs_le s) (by decide) fun _ t ht => ?_
    exact .pure ht (by decide)
  · unfold Costs
    rw [demand_missing follow hhere]
    have hreported : (s.report (.expecting k) s.head.location).weight ≤ s.weight + 1 :=
      Int.le_of_eq (weight_report s _ _)
    refine Costs.step hreported (skipTo_costs _ _) (by decide) fun _ t ht => ?_
    show Costs weight s.weight 1 1 (if t.headIs k = true then _ else _ : StreamM Bool) t
    split
    · refine Costs.step (s := t.trace (.resynchronised k)) ht (consume_costs_le _) (by decide)
        fun _ u hu => ?_
      exact .pure hu (by decide)
    · exact .pure ht (by decide)

/-- A token that is asked for and there is taken. -/
theorem demand_costs_here {follow : KindSet} (hk : k ≠ .endOfFile) (hhere : s.head.kind = k) :
    Costs weight s.weight 1 (-credit) (demand k follow) s := by
  unfold Costs
  rw [demand_here follow hhere]
  refine Costs.step (p := 0) (by omega) (consume_costs (hhere ▸ hk)) (by decide) fun _ t ht => ?_
  exact .pure ht (by decide)

/-- A rule that is not found where it is looked for costs a diagnostic. -/
theorem beginRule_costs (rule : String) (starts recover : KindSet) (s : Stream) :
    Costs weight s.weight 1 1 (beginRule rule starts recover) s := by
  by_cases hhere : s.head.kind ∈ starts
  · refine .of_ok (beginRule_here rule recover hhere) ?_
    rw [weight_opened]
    omega
  · unfold Costs
    rw [beginRule_missing rule recover hhere]
    have hreported : (s.report (.cannotStart rule s.head) s.head.location).weight ≤
        s.weight + 1 := Int.le_of_eq (weight_report s _ _)
    refine Costs.step hreported (skipTo_costs _ _) (by decide) fun _ t ht => ?_
    show Costs weight s.weight 1 1 (if t.headIn starts = true then _ else _ : StreamM Bool) t
    split
    · exact .of_ok (a := true) (t := t.opened rule) rfl ht
    · exact .of_ok (a := false) (t := t.trace (.abandoned rule)) rfl ht

/-- A rule that the head token cannot follow costs a diagnostic. -/
theorem endRule_costs (rule : String) (recover : KindSet) (s : Stream) :
    Costs weight s.weight 1 1 (endRule rule recover) s := by
  apply check_costs (s := { s with rules := s.rules.tail }) (Int.le_refl 1)
  intro _
  show Costs weight s.weight 1 1 (if s.headIn recover = true then _ else _ : StreamM Unit)
    (s.closed rule)
  split
  · exact .pure (s := s.closed rule) (p := 0) (by rw [weight_closed]; omega) (by decide)
  · have hreported : ((s.closed rule).report (.cannotFollow s.head rule) s.head.location).weight ≤
        s.weight + 1 := Int.le_of_eq (weight_report (s.closed rule) _ _)
    exact Costs.last (m := skipTo recover) hreported (skipTo_costs _ _) (by decide) (by decide)

end Stream

end PlZero
