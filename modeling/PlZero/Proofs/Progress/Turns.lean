/-
  PlZero/Proofs/Progress/Turns.lean
  =================================
  **Loops that come to an end.**  The loops of the reader go on as long as the head token is of
  certain kinds, and are bounded by the number of scans behind the head.  The bound is never
  what stops them, for every turn takes a token: `Advances m s` says that `m` leaves fewer
  tokens ahead if it returns from `s`, and it is enough to know that for a state whose head
  token led into the turn, since sub-rules may be abandoned without taking anything.

  `Unrolled` describes the same loop without a bound.  A loop whose turns advance is one of these
  (`whileIn_unrolled`).  The two skipping loops of the stream take a token in every round as well
  (`skipTo_round`, `closing_round`).
-/
import PlZero.Proofs.Trace.Readers

namespace PlZero

/-! ### Fewer tokens -/

namespace Stream

variable {s t : Stream}

theorem ahead_tail_lt (h : s.head.kind ≠ .endOfFile) :
    s.ahead.tail.length < s.ahead.length := by
  rw [ahead_of_ne h, List.tail_cons, List.length_cons]
  exact Nat.lt_succ_self _

/-- No course gives tokens back. -/
theorem Course.ahead_le (h : Course s t) : t.ahead.length ≤ s.ahead.length := by
  induction h with
  | refl s => exact Nat.le_refl _
  | trans first further ih ih' => exact Nat.le_trans ih' ih
  | report s p l => exact Nat.le_refl _
  | noted s n => exact Nat.le_refl _
  | matched hne =>
    rw [ahead_consumed]
    exact Nat.le_of_lt (ahead_tail_lt hne)
  | @skipped s hne =>
    rw [ahead_next, ahead_trace]
    exact Nat.le_of_lt (ahead_tail_lt hne)
  | abandoned s rule => exact Nat.le_refl _
  | resynchronised s k => exact Nat.le_refl _
  | bracket rule inside ih => exact ih

/-- Where a token that is asked for is the head token, it is taken. -/
theorem demand_advances {k : Kind} {follow : KindSet} {b : Bool} (hk : k ≠ .endOfFile)
    (hhere : s.head.kind = k) (h : demand k follow s = .ok b t) :
    t.ahead.length < s.ahead.length := by
  rw [demand_here follow hhere] at h
  obtain ⟨_, u, hconsume, hreturn⟩ := ok_of_bind h
  obtain rfl := consume_ok hconsume
  cases hreturn
  rw [ahead_consumed]
  exact ahead_tail_lt (hhere ▸ hk)

end Stream

namespace Reader

/-- A reader that returns leaves fewer tokens ahead than there were. -/
def Advances {α : Type} (m : Reader α) (s : ReaderState) : Prop :=
  Ends (fun _ _ => True) m (fun _ t => t.stream.ahead.length < s.stream.ahead.length) s

variable {α β : Type} {m : Reader α} {f : α → Reader β} {s : ReaderState} {k : Kind}
  {recover : KindSet}

theorem Advances.bind (hm : Advances m s) (hf : ∀ a t, Steady (f a) t) :
    Advances (m >>= f) s := by
  apply Ends.bind
  apply Ends.post hm
  intro a t ht
  apply (hf a t).post
  intro b u hu
  exact Nat.lt_of_le_of_lt hu.stream.ahead_le ht

theorem Steady.advances_bind (hm : Steady m s) (hf : ∀ a t, Advances (f a) t) :
    Advances (m >>= f) s := by
  apply Ends.bind
  apply Ends.post hm
  intro a t ht
  apply (hf a t).post
  intro b u hu
  exact Nat.lt_of_lt_of_le hu ht.stream.ahead_le

theorem Advances.look {look : ReaderState → α} (h : Advances (f (look s)) s) :
    Advances (reads look >>= f) s :=
  Ends.bind (.reads h)

theorem Advances.of_error (h : ∃ e u, m s = .error e u) : Advances m s := by
  obtain ⟨e, u, hm⟩ := h
  unfold Advances Ends
  rw [hm]
  trivial

theorem Advances.unreachable {r : Rule} : Advances (unreachable r : Reader α) s :=
  .of_error ⟨_, _, rfl⟩

theorem Advances.expect (hk : k ≠ .endOfFile) : Advances (expect k) s := by
  apply Ends.of_returns
  intro _ u hu
  obtain ⟨hhead, rfl⟩ := Stream.expect_ok hu
  show s.stream.consumed.ahead.length < _
  rw [Stream.ahead_consumed]
  exact Stream.ahead_tail_lt (hhead ▸ hk)

theorem Advances.demand (hk : k ≠ .endOfFile) (hhere : s.stream.head.kind = k) :
    Advances (demand k recover) s := by
  apply Ends.bind
  apply Ends.of_returns
  intro b u hu
  exact .pure (Stream.demand_advances hk hhere hu)

/-! ### Rule brackets -/

/-- What comes behind the body of a rule gives nothing back. -/
theorem Advances.closing {rule : String} {n : Nat} {t : ReaderState} (a : α)
    (ht : t.stream.ahead.length < n) :
    Ends (fun _ _ => True) (do Reader.onStream (Stream.endRule rule recover); return a)
      (fun _ u => u.stream.ahead.length < n) t := by
  apply Ends.bind
  apply Ends.of_returns
  intro _ u hu
  have hle := (Stream.endRule_course hu).ahead_le
  rw [Stream.ahead_closed] at hle
  exact .pure (Nat.lt_of_le_of_lt hle ht)

/-- A rule whose start is the head token is entered. -/
theorem Advances.attempt {r : Rule} {placeholder : Location → α} {body : Location → Reader α}
    (hhead : s.stream.head.kind ∈ r.starts)
    (hbody : ∀ l t, t.stream.head.kind ∈ r.starts → Advances (body l) t) :
    Advances (attempt r recover placeholder body) s := by
  apply Advances.look
  apply Ends.bind
  apply Ends.of_returns
  intro b u hu
  rw [Stream.beginRule_here r.title recover hhead] at hu
  cases hu
  apply Ends.bind
  apply (hbody _ (s.withStream (s.stream.opened r.title)) hhead).post
  intro a t ht
  exact Advances.closing a ht

theorem Advances.certainly {r : Rule} {body : Location → Reader α}
    (hbody : ∀ l t, t.stream.head.kind ∈ r.starts → Advances (body l) t) :
    Advances (certainly r recover body) s := by
  apply Ends.bind
  apply Ends.of_returns
  intro _ u hu
  obtain ⟨hstart, rfl⟩ := Stream.beginCertain_ok hu
  apply Ends.bind
  apply Ends.reads
  apply Ends.bind
  apply (hbody _ (s.withStream (s.stream.opened r.title)) hstart).post
  intro a t ht
  exact Advances.closing a ht

/-! ### Loops without a bound -/

/-- What a loop comes to that goes on as long as the head token is of a kind in `kinds`, if
    every turn leaves fewer tokens ahead. -/
inductive Unrolled (kinds : KindSet) (turn : α → Reader α) :
    α → ReaderState → EStateM.Result Abort ReaderState α → Prop
  | stopped {a : α} {s : ReaderState} (hout : s.stream.head.kind ∉ kinds) :
      Unrolled kinds turn a s (.ok a s)
  | aborted {a : α} {s t : ReaderState} {e : Abort} (hin : s.stream.head.kind ∈ kinds)
      (hturn : turn a s = .error e t) : Unrolled kinds turn a s (.error e t)
  | turned {a b : α} {s t : ReaderState} {r : EStateM.Result Abort ReaderState α}
      (hin : s.stream.head.kind ∈ kinds) (hturn : turn a s = .ok b t)
      (hfewer : t.stream.ahead.length < s.stream.ahead.length)
      (hfurther : Unrolled kinds turn b t r) : Unrolled kinds turn a s r

section

variable {kinds : KindSet} {turn : α → Reader α} {a : α} {scans : List Scan}

theorem repeatWhile_out (hout : s.stream.head.kind ∉ kinds) :
    repeatWhile kinds turn scans a s = .ok a s := by
  have hstop : s.stream.headIn kinds = false := Bool.eq_false_iff.mpr (mt Stream.headIn_iff.mp hout)
  cases scans with
  | nil =>
    show (if s.stream.headIn kinds = true then turn a else pure a : Reader α) s = _
    rw [hstop]
    rfl
  | cons x scans =>
    show (if s.stream.headIn kinds = true then _ else pure a : Reader α) s = _
    rw [hstop]
    rfl

theorem repeatWhile_last (hin : s.stream.head.kind ∈ kinds) :
    repeatWhile kinds turn [] a s = turn a s := by
  show (if s.stream.headIn kinds = true then turn a else pure a : Reader α) s = _
  rw [if_pos (Stream.headIn_iff.mpr hin)]

theorem repeatWhile_next {x : Scan} (hin : s.stream.head.kind ∈ kinds) :
    repeatWhile kinds turn (x :: scans) a s = (turn a >>= repeatWhile kinds turn scans) s := by
  show (if s.stream.headIn kinds = true then _ else pure a : Reader α) s = _
  rw [if_pos (Stream.headIn_iff.mpr hin)]

/-- A loop with a bound is the loop without: there is a scan for every turn that is left once
    this one has taken its token. -/
theorem repeatWhile_unrolled (hend : .endOfFile ∉ kinds)
    (hturn : ∀ a t, t.stream.head.kind ∈ kinds → Advances (turn a) t)
    (hbound : s.stream.ahead.length ≤ scans.length + 1) (a : α) :
    Unrolled kinds turn a s (repeatWhile kinds turn scans a s) := by
  by_cases hin : s.stream.head.kind ∈ kinds
  · induction scans generalizing s a with
    | nil =>
      rw [repeatWhile_last hin]
      rcases Ends.cases (hturn a s hin) with ⟨b, t, hm, hfewer⟩ | ⟨e, t, hm, -⟩
      · -- no token is left, and the end of the input leads into no turn
        rw [hm]
        refine .turned hin hm hfewer (.stopped ?_)
        have hnone : t.stream.ahead.length = 0 := by
          rw [List.length_nil] at hbound
          omega
        have hlast : t.stream.head.kind = .endOfFile := by
          by_contra hne
          have hlt := Stream.ahead_tail_lt hne
          omega
        rw [hlast]
        exact hend
      · rw [hm]
        exact .aborted hin hm
    | cons x scans ih =>
      rw [repeatWhile_next hin]
      rcases Ends.cases (hturn a s hin) with ⟨b, t, hm, hfewer⟩ | ⟨e, t, hm, -⟩
      · have hnext : (turn a >>= repeatWhile kinds turn scans) s =
            repeatWhile kinds turn scans b t := by
          simp only [Bind.bind, EStateM.bind, hm]
        rw [hnext]
        apply Unrolled.turned hin hm hfewer
        rw [List.length_cons] at hbound
        by_cases hagain : t.stream.head.kind ∈ kinds
        · exact ih (by omega) b hagain
        · rw [repeatWhile_out hagain]
          exact .stopped hagain
      · have hnext : (turn a >>= repeatWhile kinds turn scans) s = .error e t := by
          simp only [Bind.bind, EStateM.bind, hm]
        rw [hnext]
        exact .aborted hin hm
  · rw [repeatWhile_out hin]
    exact .stopped hin

end

/-- A loop whose turns advance is not stopped by its bound. -/
theorem whileIn_unrolled {kinds : KindSet} {turn : α → Reader α} (hend : .endOfFile ∉ kinds)
    (hturn : ∀ a t, t.stream.head.kind ∈ kinds → Advances (turn a) t) (a : α)
    (s : ReaderState) : Unrolled kinds turn a s (whileIn kinds turn a s) :=
  repeatWhile_unrolled hend hturn (Stream.ahead_length_le s.stream) a

end Reader

/-! ### Skipping -/

namespace Stream

variable {s : Stream}

/-- The state of a stream at which one pass over parentheses stands. -/
def closing (openCount : Nat) (s : Stream) : EStateM.Result Abort Stream Unit :=
  closeOver s.rules openCount s.head s.rest s.journal

/-- Where a digit run too long to read follows, the head token is the only one ahead. -/
theorem ahead_overlong {head : Token} {rest : List Scan} {rules : List String} {j j' : Journal}
    {n : Nat} : ahead ⟨head, [], rules, j'⟩ = ahead ⟨head, .overlong n :: rest, rules, j⟩ := by
  simp [ahead, Scan.upcoming]

/-- Unless a digit run too long to read follows, a skip that is not over goes on behind the
    head token. -/
theorem skipTo_round {find : KindSet} (hout : s.head.kind ∉ find)
    (hne : s.head.kind ≠ .endOfFile) :
    (∃ n u, skipTo find s = .error (.longDigitRun n) u ∧ u.ahead = s.ahead ∧
        u.reports = s.reports) ∨
      skipTo find s = skipTo find (s.trace (.skipped s.head)).next ∧
        (s.trace (.skipped s.head)).next.ahead.length < s.ahead.length := by
  have hfewer : (s.trace (.skipped s.head)).next.ahead.length < s.ahead.length := by
    rw [ahead_next, ahead_trace]
    exact ahead_tail_lt hne
  obtain ⟨head, rest, rules, journal⟩ := s
  cases rest with
  | nil =>
    refine .inr ⟨?_, hfewer⟩
    have hnext : (trace ⟨head, [], rules, journal⟩ (.skipped head)).next =
        ⟨.endOfFile head.location, [], rules, .trace rules.length (.skipped head) :: journal⟩ :=
      next_last hne
    rw [hnext]
    exact (skipOver_last hout hne).trans (skipTo_stop (.inr rfl)).symm
  | cons x rest =>
    cases x with
    | overlong n => exact .inl ⟨n, _, skipOver_overlong hout hne, ahead_overlong, rfl⟩
    | token t fault =>
      refine .inr ⟨?_, hfewer⟩
      have hnext : (trace ⟨head, .token t fault :: rest, rules, journal⟩ (.skipped head)).next =
          ⟨t, rest, rules, reported t fault (.trace rules.length (.skipped head) :: journal)⟩ :=
        next_token hne
      rw [hnext]
      exact skipOver_token hout hne

theorem closing_over (n : Nat) (h : s.head.kind = .endOfFile) : s.closing n = .ok () s :=
  closeOver_stop h

/-- Unless a digit run too long to read follows, a pass over parentheses takes the head token,
    and ends behind it if it closes the last parenthesis. -/
theorem closing_round (n : Nat) (hne : s.head.kind ≠ .endOfFile) :
    (∃ k u, s.closing n = .error (.longDigitRun k) u ∧ u.ahead = s.ahead ∧
        u.reports = s.reports) ∨
      (s.closing n = .ok () s.consumed ∨ ∃ k, s.closing n = s.consumed.closing k) ∧
        s.consumed.ahead.length < s.ahead.length := by
  have hfewer : s.consumed.ahead.length < s.ahead.length := by
    rw [ahead_consumed]
    exact ahead_tail_lt hne
  obtain ⟨head, rest, rules, journal⟩ := s
  cases rest with
  | nil =>
    refine .inr ⟨.inl ?_, hfewer⟩
    have hnext : consumed ⟨head, [], rules, journal⟩ = ⟨.endOfFile head.location, [], rules,
        .trace rules.length (.matched head) :: journal⟩ := next_last hne
    rw [hnext]
    exact closeOver_last hne
  | cons x rest =>
    cases x with
    | overlong k => exact .inl ⟨k, _, closeOver_overlong hne, ahead_overlong, rfl⟩
    | token t fault =>
      refine .inr ⟨?_, hfewer⟩
      have hnext : consumed ⟨head, .token t fault :: rest, rules, journal⟩ =
          ⟨t, rest, rules, reported t fault (.trace rules.length (.matched head) :: journal)⟩ :=
        next_token hne
      have hrun : closing n ⟨head, .token t fault :: rest, rules, journal⟩ =
          closeOver rules n head (.token t fault :: rest) journal := rfl
      rw [hnext, hrun, closeOver_token hne]
      dsimp only
      split
      · exact .inr ⟨n + 1, rfl⟩
      · split
        · cases n with
          | zero => exact .inl rfl
          | succ n => exact .inr ⟨n, rfl⟩
        · exact .inr ⟨n, rfl⟩

end Stream

end PlZero
