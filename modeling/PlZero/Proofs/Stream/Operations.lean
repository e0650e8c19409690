/-
  PlZero/Proofs/Stream/Operations.lean
  ====================================
  **What each operation on a token stream does**, as long as no digit run that is too
  long to read lies ahead.  An operation either finds what it looks for, and then the
  stream afterwards is written out, or it reports one error and skips: `Demanded`,
  `Begun` and `Ended` tell the two apart.  Only an operation whose caller did not look
  at the head token first, or closed a rule that is not open, ends the run.
-/
import PlZero.Proofs.Stream.Ahead

namespace PlZero

/-- Where a run returns, so do its parts. -/
theorem ok_of_bind {σ α β : Type} {m : EStateM Abort σ α} {f : α → EStateM Abort σ β} {s u : σ}
    {b : β} (h : (m >>= f) s = .ok b u) : ∃ a t, m s = .ok a t ∧ f a t = .ok b u := by
  simp only [Bind.bind, EStateM.bind] at h
  cases hm : m s with
  | ok a t =>
    rw [hm] at h
    exact ⟨a, t, rfl, h⟩
  | error e t =>
    rw [hm] at h
    cases h

/-- Where a run ends early, its first part does, or it returns and the second part does. -/
theorem error_of_bind {σ α β : Type} {m : EStateM Abort σ α} {f : α → EStateM Abort σ β}
    {s u : σ} {e : Abort} (h : (m >>= f) s = .error e u) :
    m s = .error e u ∨ ∃ a t, m s = .ok a t ∧ f a t = .error e u := by
  simp only [Bind.bind, EStateM.bind] at h
  cases hm : m s with
  | ok a t =>
    rw [hm] at h
    exact .inr ⟨a, t, rfl, h⟩
  | error e' t =>
    rw [hm] at h
    cases h
    exact .inl rfl

namespace Stream

theorem headIs_iff {s : Stream} {k : Kind} : s.headIs k = true ↔ s.head.kind = k := by
  simp only [headIs, beq_iff_eq]

theorem headIn_iff {s : Stream} {kinds : KindSet} :
    s.headIn kinds = true ↔ s.head.kind ∈ kinds :=
  Iff.rfl

theorem bind_of_ok {α β : Type} {m : StreamM α} {f : α → StreamM β} {s t : Stream} {a : α}
    (h : m s = .ok a t) : (m >>= f) s = f a t := by
  simp only [bind, EStateM.bind, h]

theorem bind_of_error {α β : Type} {m : StreamM α} {f : α → StreamM β} {s t : Stream}
    {e : Abort} (h : m s = .error e t) : (m >>= f) s = .error e t := by
  simp only [bind, EStateM.bind, h]

theorem check_of_true {s : Stream} {c : Bool} {a : Assertion} {l : Location} (h : c = true) :
    check c a l s = .ok () s := by
  rw [h]; rfl

theorem check_of_false {s : Stream} {c : Bool} {a : Assertion} {l : Location}
    (h : c = false) : check c a l s = fatal (.broken a) l s := by
  rw [h]; rfl

/-! ### Looking at the head -/

theorem name_of_identifier {s : Stream} (h : s.head.kind = .identifier) :
    name s = .ok s.head.payload s :=
  bind_of_ok (m := check _ _ _) (check_of_true (headIs_iff.mpr h))

theorem name_of_other {s : Stream} (h : s.head.kind ≠ .identifier) :
    name s = fatal (.broken (.identifierExpected s.head)) s.head.location s :=
  bind_of_error (m := check _ _ _) (check_of_false (Bool.eq_false_iff.mpr (mt headIs_iff.mp h)))

theorem number_of_number {s : Stream} (h : s.head.kind = .number) :
    number s = .ok s.head.payload s :=
  bind_of_ok (m := check _ _ _) (check_of_true (headIs_iff.mpr h))

theorem number_of_other {s : Stream} (h : s.head.kind ≠ .number) :
    number s = fatal (.broken (.numberExpected s.head)) s.head.location s :=
  bind_of_error (m := check _ _ _) (check_of_false (Bool.eq_false_iff.mpr (mt headIs_iff.mp h)))

/-! ### Consuming tokens -/

theorem advance_eq {s : Stream} (h : s.Clear) : advance s = .ok () s.next := by
  unfold advance next
  split
  · rfl
  · split
    · rename_i heq
      simp only [heq]
    · rename_i n rest heq
      exact absurd (heq ▸ List.mem_cons_self) (h n)
    · rename_i heq
      simp only [heq]

theorem advance_end {s : Stream} (h : s.head.kind = .endOfFile) : advance s = .ok () s := by
  unfold advance
  rw [if_pos (headIs_iff.mpr h)]

theorem advance_last (h : s.head.kind ≠ .endOfFile) (hrest : s.rest = []) :
    advance s = .ok () { s with head := .endOfFile s.head.location } := by
  unfold advance
  rw [if_neg (mt headIs_iff.mp h), hrest]

theorem advance_overlong {s : Stream} {n : Nat} {rest : List Scan}
    (h : s.head.kind ≠ .endOfFile) (hrest : s.rest = .overlong n :: rest) :
    advance s = .error (.longDigitRun n) { s with rest := [] } := by
  unfold advance
  rw [if_neg (mt headIs_iff.mp h), hrest]

theorem advance_token {s : Stream} {t : Token} {fault : Option Problem} {rest : List Scan}
    (h : s.head.kind ≠ .endOfFile) (hrest : s.rest = .token t fault :: rest) :
    advance s =
      .ok () { s with head := t, rest := rest, journal := reported t fault s.journal } := by
  unfold advance
  rw [if_neg (mt headIs_iff.mp h), hrest]

theorem consume_eq {s : Stream} (h : s.Clear) : consume s = .ok () s.consumed :=
  advance_eq (s := s.trace (.matched s.head)) h

theorem expect_here {s : Stream} {k : Kind} (hk : s.head.kind = k) : expect k s = consume s :=
  bind_of_ok (m := check _ _ _) (check_of_true (headIs_iff.mpr hk))

theorem expect_of_kind {s : Stream} {k : Kind} (h : s.Clear) (hk : s.head.kind = k) :
    expect k s = .ok () s.consumed :=
  (expect_here hk).trans (consume_eq h)

theorem expect_of_other {s : Stream} {k : Kind} (hk : s.head.kind ≠ k) :
    expect k s = fatal (.broken (.kindExpected k s.head)) s.head.location s :=
  bind_of_error (m := check _ _ _) (check_of_false (Bool.eq_false_iff.mpr (mt headIs_iff.mp hk)))

section

variable {head t : Token} {fault : Option Problem} {rest : List Scan} {rules : List String}
  {journal : Journal} {find : KindSet} {n openCount : Nat}

theorem next_last (h : head.kind ≠ .endOfFile) :
    next ⟨head, [], rules, journal⟩ = ⟨.endOfFile head.location, [], rules, journal⟩ := by
  simp [next, headIs, h]

theorem next_token (h : head.kind ≠ .endOfFile) :
    next ⟨head, .token t fault :: rest, rules, journal⟩ =
      ⟨t, rest, rules, reported t fault journal⟩ := by
  simp [next, headIs, h]

/-! The loops that skip and that pass over parentheses, by what the next scan is. -/

theorem skipOver_stop (h : head.kind ∈ find ∨ head.kind = .endOfFile) :
    skipOver find rules head rest journal = .ok () ⟨head, rest, rules, journal⟩ := by
  have hstop : (find.contains head.kind || head.kind == .endOfFile) = true := by
    simp only [Bool.or_eq_true, beq_iff_eq]
    exact h
  unfold skipOver
  cases rest with
  | nil => exact if_pos hstop
  | cons x rest => exact if_pos hstop

theorem skipOver_goes (hout : head.kind ∉ find) (hne : head.kind ≠ .endOfFile) :
    ¬ (find.contains head.kind || head.kind == .endOfFile) = true := by
  simp only [Bool.or_eq_true, beq_iff_eq, not_or]
  exact ⟨hout, hne⟩

theorem skipOver_last (hout : head.kind ∉ find) (hne : head.kind ≠ .endOfFile) :
    skipOver find rules head [] journal = .ok () ⟨.endOfFile head.location, [], rules,
      .trace rules.length (.skipped head) :: journal⟩ :=
  if_neg (skipOver_goes hout hne)

theorem skipOver_overlong (hout : head.kind ∉ find) (hne : head.kind ≠ .endOfFile) :
    skipOver find rules head (.overlong n :: rest) journal = .error (.longDigitRun n)
      ⟨head, [], rules, .trace rules.length (.skipped head) :: journal⟩ :=
  if_neg (skipOver_goes hout hne)

theorem skipOver_token (hout : head.kind ∉ find) (hne : head.kind ≠ .endOfFile) :
    skipOver find rules head (.token t fault :: rest) journal = skipOver find rules t rest
      (reported t fault (.trace rules.length (.skipped head) :: journal)) :=
  if_neg (skipOver_goes hout hne)

theorem closeOver_stop (h : head.kind = .endOfFile) :
    closeOver rules openCount head rest journal = .ok () ⟨head, rest, rules, journal⟩ := by
  have hstop : (head.kind == .endOfFile) = true := by simpa using h
  unfold closeOver
  cases rest with
  | nil => exact if_pos hstop
  | cons x rest => exact if_pos hstop

theorem closeOver_last (h : head.kind ≠ .endOfFile) :
    closeOver rules openCount head [] journal = .ok () ⟨.endOfFile head.location, [], rules,
      .trace rules.length (.matched head) :: journal⟩ :=
  if_neg (by simpa using h)

theorem closeOver_overlong (h : head.kind ≠ .endOfFile) :
    closeOver rules openCount head (.overlong n :: rest) journal = .error (.longDigitRun n)
      ⟨head, [], rules, .trace rules.length (.matched head) :: journal⟩ :=
  if_neg (by simpa using h)

theorem closeOver_token (h : head.kind ≠ .endOfFile) :
    closeOver rules openCount head (.token t fault :: rest) journal =
      let further := reported t fault (.trace rules.length (.matched head) :: journal)
      if head.kind == .leftParen then closeOver rules (openCount + 1) t rest further
      else if head.kind == .rightParen then
        match openCount with
        | 0 => .ok () ⟨t, rest, rules, further⟩
        | n + 1 => closeOver rules n t rest further
      else closeOver rules openCount t rest further :=
  if_neg (by simpa using h)

end

section

variable {s : Stream} {find : KindSet}

theorem skipTo_stop (h : s.head.kind ∈ find ∨ s.head.kind = .endOfFile) :
    skipTo find s = .ok () s :=
  skipOver_stop h

/-- A skip that does not stop at the head moves on and goes on. -/
theorem skipTo_step (hout : s.head.kind ∉ find) (hne : s.head.kind ≠ .endOfFile) :
    skipTo find s = (do advance; skipTo find : StreamM Unit) (s.trace (.skipped s.head)) := by
  rcases s with ⟨head, rest, rules, journal⟩
  show skipOver find rules head rest journal = _
  rcases rest with _ | ⟨⟨t, fault⟩ | n, rest⟩
  · have hadvance := advance_last (s := trace ⟨head, [], rules, journal⟩ (.skipped head)) hne rfl
    rw [skipOver_last hout hne]
    exact ((bind_of_ok (m := advance) hadvance).trans (skipTo_stop (.inr rfl))).symm
  · have hadvance := advance_token
      (s := trace ⟨head, .token t fault :: rest, rules, journal⟩ (.skipped head)) hne rfl
    rw [skipOver_token hout hne]
    exact (bind_of_ok (m := advance) (f := fun _ => skipTo find) hadvance).symm
  · have hadvance := advance_overlong
      (s := trace ⟨head, .overlong n :: rest, rules, journal⟩ (.skipped head)) hne rfl
    rw [skipOver_overlong hout hne]
    exact (bind_of_error (m := advance) hadvance).symm

/-- What holds where a skip stops, and in front of a token that is skipped if it holds behind,
    holds of every stream. -/
theorem skipping_induction (find : KindSet) {motive : Stream → Prop}
    (stops : ∀ s : Stream, s.head.kind ∈ find ∨ s.head.kind = .endOfFile → motive s)
    (goes : ∀ s : Stream, s.head.kind ∉ find → s.head.kind ≠ .endOfFile → motive s.skipped →
      motive s) (s : Stream) : motive s := by
  generalize hsize : s.ahead.length = size
  induction size generalizing s with
  | zero =>
    apply stops
    by_contra hgo
    rw [ahead_of_ne (not_or.mp hgo).2] at hsize
    cases hsize
  | succ size ih =>
    by_cases hstop : s.head.kind ∈ find ∨ s.head.kind = .endOfFile
    · exact stops s hstop
    · obtain ⟨hout, hne⟩ := not_or.mp hstop
      have hskipped : s.skipped.ahead = s.ahead.tail := ahead_next _
      exact goes s hout hne (ih _ (by rw [hskipped, List.length_tail, hsize]; rfl))

theorem skipTo_goes (h : s.Clear) (hout : s.head.kind ∉ find) (hne : s.head.kind ≠ .endOfFile) :
    skipTo find s = skipTo find s.skipped := by
  rw [skipTo_step hout hne]
  exact bind_of_ok (m := advance) (advance_eq (s := s.trace _) h)

/-- A skip stops at a token it looks for, or at the end of the input. -/
theorem skipTo_moved (find : KindSet) (h : s.Clear) :
    ∃ t, skipTo find s = .ok () t ∧ Moved s t ∧
      (t.head.kind ∈ find ∨ t.head.kind = .endOfFile) := by
  induction s using skipping_induction find with
  | stops s hstop => exact ⟨s, skipTo_stop hstop, .refl s, hstop⟩
  | goes s hout hne ih =>
    have hskipped : Moved s s.skipped := (Moved.trace s _).trans (.next _)
    obtain ⟨t, ht, hmoved, hstop⟩ := ih (hskipped.toOnward.clear h)
    exact ⟨t, (skipTo_goes h hout hne).trans ht, hskipped.trans hmoved, hstop⟩

end

/-- What asking for a token of a kind does: it is there and taken, or it is reported
    and tokens may be skipped. -/
inductive Demanded (k : Kind) (s : Stream) : Stream → Prop
  | here (h : s.head.kind = k) : Demanded k s s.consumed
  | missing {t : Stream} (h : s.head.kind ≠ k)
      (moved : Moved (s.report (.expecting k) s.head.location) t) : Demanded k s t

theorem demand_here {k : Kind} (follow : KindSet) {s : Stream} (h : s.head.kind = k) :
    demand k follow s = (do consume; return true : StreamM Bool) s := by
  show (if s.headIs k = true then _ else _ : StreamM Bool) s = _
  rw [if_pos (headIs_iff.mpr h)]

theorem demand_missing {k : Kind} (follow : KindSet) {s : Stream} (h : s.head.kind ≠ k) :
    demand k follow s = (do
      skipTo (follow ∪ .singleton k)
      if (← get).headIs k then
        modify fun s => s.trace (.resynchronised k)
        consume
        return true
      else
        return false : StreamM Bool) (s.report (.expecting k) s.head.location) := by
  show (if s.headIs k = true then _ else _ : StreamM Bool) s = _
  rw [if_neg (mt headIs_iff.mp h)]
  rfl

theorem demand_demanded (k : Kind) (follow : KindSet) {s : Stream} (h : s.Clear) :
    ∃ b t, demand k follow s = .ok b t ∧ Demanded k s t := by
  by_cases hk : s.head.kind = k
  · refine ⟨true, s.consumed, ?_, .here hk⟩
    rw [demand_here follow hk]
    exact bind_of_ok (consume_eq h)
  · obtain ⟨t, ht, hmoved, -⟩ := skipTo_moved (follow ∪ .singleton k)
      (s := s.report (.expecting k) s.head.location) h
    have hrun : demand k follow s = (if t.headIs k = true then (do
        modify fun s => s.trace (.resynchronised k)
        consume
        return true) else pure false : StreamM Bool) t := by
      rw [demand_missing follow hk]
      exact bind_of_ok (m := skipTo _) ht
    by_cases hfound : t.head.kind = k
    · refine ⟨true, (t.trace (.resynchronised k)).consumed, ?_, .missing hk ?_⟩
      · rw [hrun, if_pos (headIs_iff.mpr hfound)]
        exact bind_of_ok (m := consume) (consume_eq (s := t.trace _) (hmoved.toOnward.clear h))
      · exact hmoved.trans ((Moved.trace _ _).trans (.consumed _))
    · refine ⟨false, t, ?_, .missing hk hmoved⟩
      rw [hrun, if_neg (mt headIs_iff.mp hfound)]
      rfl

/-! ### Rule brackets -/

/-- What entering a rule does: the head token starts it; or it does not, which is
    reported, and a start is found further on, or none is found and the rule is
    abandoned at a token that its caller waits for. -/
inductive Begun (rule : String) (starts recover : KindSet) (s : Stream) :
    Bool → Stream → Prop
  | here (h : s.head.kind ∈ starts) : Begun rule starts recover s true (s.opened rule)
  | found {t : Stream} (h : s.head.kind ∉ starts)
      (moved : Moved (s.report (.cannotStart rule s.head) s.head.location) t)
      (start : t.head.kind ∈ starts) : Begun rule starts recover s true (t.opened rule)
  | lost {t : Stream} (h : s.head.kind ∉ starts)
      (moved : Moved (s.report (.cannotStart rule s.head) s.head.location) t)
      (waited : t.head.kind ∈ recover ∨ t.head.kind = .endOfFile) :
      Begun rule starts recover s false t

theorem beginRule_here (rule : String) {starts : KindSet} (recover : KindSet) {s : Stream}
    (h : s.head.kind ∈ starts) : beginRule rule starts recover s = .ok true (s.opened rule) := by
  show (if s.headIn starts = true then _ else _ : StreamM Bool) s = _
  rw [if_pos (headIn_iff.mpr h)]
  rfl

theorem beginRule_missing (rule : String) {starts : KindSet} (recover : KindSet) {s : Stream}
    (h : s.head.kind ∉ starts) :
    beginRule rule starts recover s = (do
      skipTo (starts ∪ recover)
      if (← get).headIn starts then
        pushRule rule
        return true
      else
        modify fun s => s.trace (.abandoned rule)
        return false : StreamM Bool) (s.report (.cannotStart rule s.head) s.head.location) := by
  show (if s.headIn starts = true then _ else _ : StreamM Bool) s = _
  rw [if_neg (mt headIn_iff.mp h)]
  rfl

theorem beginRule_begun (rule : String) (starts recover : KindSet) {s : Stream}
    (h : s.Clear) :
    ∃ b t, beginRule rule starts recover s = .ok b t ∧ Begun rule starts recover s b t := by
  by_cases hk : s.head.kind ∈ starts
  · exact ⟨true, _, beginRule_here rule recover hk, .here hk⟩
  · obtain ⟨t, ht, hmoved, hstop⟩ := skipTo_moved (starts ∪ recover)
      (s := s.report (.cannotStart rule s.head) s.head.location) h
    have hrun : beginRule rule starts recover s = (if t.headIn starts = true then (do
        pushRule rule
        return true) else (do
        modify fun s => s.trace (.abandoned rule)
        return false) : StreamM Bool) t := by
      rw [beginRule_missing rule recover hk]
      exact bind_of_ok (m := skipTo _) ht
    by_cases hfound : t.head.kind ∈ starts
    · refine ⟨true, _, ?_, .found hk hmoved hfound⟩
      rw [hrun, if_pos (headIn_iff.mpr hfound)]
      rfl
    · refine ⟨false, t.trace (.abandoned rule), ?_, .lost hk (hmoved.trans (.trace _ _)) ?_⟩
      · rw [hrun, if_neg (mt headIn_iff.mp hfound)]
        rfl
      · rcases hstop with hin | hend
        · exact .inl ((KindSet.mem_union.mp hin).resolve_left hfound)
        · exact .inr hend

theorem beginCertain_of_start {rule : String} {starts : KindSet} {s : Stream}
    (h : s.head.kind ∈ starts) : beginCertain rule starts s = .ok () (s.opened rule) :=
  bind_of_ok (m := check _ _ _) (check_of_true (headIn_iff.mpr h))

theorem beginCertain_of_other {rule : String} {starts : KindSet} {s : Stream}
    (h : s.head.kind ∉ starts) : beginCertain rule starts s =
      fatal (.broken (.startExpected rule s.head)) s.head.location s :=
  bind_of_error (m := check _ _ _) (check_of_false (Bool.eq_false_iff.mpr (mt headIn_iff.mp h)))

/-- What leaving a rule does: the head token can follow it, or that is reported and
    tokens are skipped up to one that can. -/
inductive Ended (rule : String) (recover : KindSet) (s : Stream) : Stream → Prop
  | here (h : s.head.kind ∈ recover) : Ended rule recover s (s.closed rule)
  | skipped {t : Stream} (h : s.head.kind ∉ recover)
      (moved : Moved ((s.closed rule).report (.cannotFollow s.head rule) s.head.location) t)
      (waited : t.head.kind ∈ recover ∨ t.head.kind = .endOfFile) : Ended rule recover s t

/-- The innermost rule is closed before it is looked whether the head token can follow it. -/
theorem endRule_innermost {rule : String} (recover : KindSet) {s : Stream}
    (hrule : s.rules.head? = some rule) :
    endRule rule recover s = (if s.headIn recover = true then pure () else (do
      modify fun s => s.report (.cannotFollow s.head rule) s.head.location
      skipTo recover) : StreamM Unit) (s.closed rule) :=
  bind_of_ok (m := check _ _ _) (check_of_true (s := { s with rules := s.rules.tail })
    (by rw [hrule]; exact beq_self_eq_true _))

theorem endRule_ended {rule : String} (recover : KindSet) {s : Stream} (h : s.Clear)
    (hrule : s.rules.head? = some rule) :
    ∃ t, endRule rule recover s = .ok () t ∧ Ended rule recover s t := by
  by_cases hin : s.head.kind ∈ recover
  · refine ⟨_, ?_, .here hin⟩
    rw [endRule_innermost recover hrule, if_pos (headIn_iff.mpr hin)]
    rfl
  · obtain ⟨t, ht, hmoved, hstop⟩ := skipTo_moved recover
      (s := (s.closed rule).report (.cannotFollow s.head rule) s.head.location) h
    refine ⟨t, ?_, .skipped hin hmoved hstop⟩
    rw [endRule_innermost recover hrule, if_neg (mt headIn_iff.mp hin)]
    exact ht

/-- A rule that is not the innermost one is taken off the stack before the check fails. -/
theorem endRule_mismatch {rule : String} (recover : KindSet) {s : Stream}
    (hrule : s.rules.head? ≠ some rule) : endRule rule recover s =
      fatal (.broken (.ruleMismatch rule s.rules.head?)) s.head.location
        { s with rules := s.rules.tail } :=
  bind_of_error (m := check _ _ _)
    (check_of_false (s := { s with rules := s.rules.tail }) (beq_eq_false_iff_ne.mpr hrule))

/-! ### Passing over parentheses -/

theorem skipParenthesised_moved {s : Stream} (h : s.Clear) :
    ∃ t, skipParenthesised s = .ok () t ∧ Moved s t := by
  rcases s with ⟨head, rest, rules, journal⟩
  show ∃ t, closeOver rules 0 head rest journal = .ok () t ∧ _
  generalize 0 = openCount
  induction rest generalizing head journal openCount with
  | nil =>
    unfold closeOver
    split
    · exact ⟨_, rfl, .refl _⟩
    · rename_i hgo
      have hnext : consumed ⟨head, [], rules, journal⟩ = ⟨.endOfFile head.location, [], rules,
          .trace rules.length (.matched head) :: journal⟩ := next_last (by simpa using hgo)
      exact ⟨_, rfl, hnext ▸ .consumed _⟩
  | cons scan rest ih =>
    unfold closeOver
    split
    · exact ⟨_, rfl, .refl _⟩
    · rename_i hgo
      cases scan with
      | overlong n => exact absurd List.mem_cons_self (h n)
      | token t fault =>
        have hmoved : Moved ⟨head, .token t fault :: rest, rules, journal⟩ ⟨t, rest, rules,
            reported t fault (.trace rules.length (.matched head) :: journal)⟩ := by
          have hnext : consumed ⟨head, .token t fault :: rest, rules, journal⟩ =
              ⟨t, rest, rules,
                reported t fault (.trace rules.length (.matched head) :: journal)⟩ :=
            next_token (by simpa using hgo)
          exact hnext ▸ .consumed _
        have further : ∀ n, ∃ u, closeOver rules n t rest
            (reported t fault (.trace rules.length (.matched head) :: journal)) = .ok () u ∧
            Moved ⟨head, .token t fault :: rest, rules, journal⟩ u := by
          intro n
          obtain ⟨u, hu, hmoved'⟩ := ih t
            (reported t fault (.trace rules.length (.matched head) :: journal))
            (fun n hn => h n (List.mem_cons_of_mem _ hn)) n
          exact ⟨u, hu, hmoved.trans hmoved'⟩
        dsimp only
        split
        · exact further _
        · split
          · cases openCount with
            | zero => exact ⟨_, rfl, hmoved⟩
            | succ n => exact further n
          · exact further _

end Stream

end PlZero
