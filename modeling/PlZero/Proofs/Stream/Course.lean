/-
  PlZero/Proofs/Stream/Course.lean
  ================================
  **What can happen to a token stream.**  `Course s t` says that the stream `s` becomes `t` by
  what an operation does that closes every rule it opens: a diagnostic is reported, a remark
  is noted, the head token is matched or skipped, a rule is abandoned, a skip has found what it
  looked for, or one of these goes on inside a rule that is opened before and closed behind.
  The end of the input is neither matched nor skipped.

  Every operation that returns takes such a course (`demand_course`, `beginRule_course` and so
  on), also where digits too long to read lie ahead, since it does not return then.  What holds
  of every course is proved by one induction on it.
-/
import PlZero.Proofs.Stream.Operations

namespace PlZero.Stream

variable {s t u : Stream} {rule : String} {starts recover find : KindSet} {k : Kind}

/-! ### Courses -/

/-- What can happen to a stream until every rule is closed that was opened on the way. -/
inductive Course : Stream → Stream → Prop
  | refl (s : Stream) : Course s s
  | trans {s t u : Stream} (first : Course s t) (further : Course t u) : Course s u
  | report (s : Stream) (p : Problem) (l : Location) : Course s (s.report p l)
  | noted (s : Stream) (n : Note) : Course s (s.noted n)
  | matched {s : Stream} (hne : s.head.kind ≠ .endOfFile) : Course s s.consumed
  | skipped {s : Stream} (hne : s.head.kind ≠ .endOfFile) :
      Course s (s.trace (.skipped s.head)).next
  | abandoned (s : Stream) (rule : String) : Course s (s.trace (.abandoned rule))
  | resynchronised (s : Stream) (k : Kind) : Course s (s.trace (.resynchronised k))
  | bracket {s t : Stream} (rule : String) (inside : Course (s.opened rule) t) :
      Course s (t.closed rule)

/-- The rules that are being read are the same before and behind. -/
theorem Course.rules (h : Course s t) : t.rules = s.rules := by
  induction h with
  | refl s => rfl
  | trans first further ih ih' => exact ih'.trans ih
  | report s p l => rfl
  | noted s n => rfl
  | matched hne => exact rules_consumed _
  | skipped hne => exact rules_next _
  | abandoned s rule => rfl
  | resynchronised s k => rfl
  | bracket rule inside ih =>
    show List.tail _ = _
    rw [ih]
    rfl

/-- A course takes tokens off the front and adds events. -/
theorem Course.onward (h : Course s t) : Onward s t := by
  induction h with
  | refl s => exact .refl s
  | trans first further ih ih' => exact ih.trans ih'
  | report s p l => exact .report s p l
  | noted s n => exact (Moved.noted s n).toOnward
  | matched hne => exact (Moved.consumed _).toOnward
  | skipped hne => exact ((Moved.trace _ _).trans (.next _)).toOnward
  | abandoned s rule => exact (Moved.trace s _).toOnward
  | resynchronised s k => exact (Moved.trace s _).toOnward
  | @bracket s t rule inside ih =>
    have hopened : s.journal <:+ (s.opened rule).journal := List.suffix_cons _ _
    have hclosed : t.journal <:+ (t.closed rule).journal := List.suffix_cons _ _
    exact ⟨(Course.bracket rule inside).rules, ih.rest, ih.ahead,
      (hopened.trans ih.journal).trans hclosed, ih.endsLast⟩

/-! ### Operations that return -/

variable {head : Token} {rest : List Scan} {rules : List String} {journal : Journal}

/-- Where an operation returns behind a check, the check has passed. -/
theorem ok_of_check {α : Type} {c : Bool} {a : Assertion} {l : Location} {f : Unit → StreamM α}
    {x : α} (h : (check c a l >>= f) s = .ok x u) : c = true ∧ f () s = .ok x u := by
  cases c with
  | true => exact ⟨rfl, h⟩
  | false => cases h

theorem name_ok {x : Payload} (h : name s = .ok x u) : u = s := by
  obtain ⟨-, hpayload⟩ := ok_of_check h
  cases hpayload
  rfl

theorem number_ok {x : Payload} (h : number s = .ok x u) : u = s := by
  obtain ⟨-, hpayload⟩ := ok_of_check h
  cases hpayload
  rfl

theorem advance_ok {x : Unit} (h : advance s = .ok x u) : u = s.next := by
  unfold advance at h
  unfold next
  split at h
  · cases h
    simp [*]
  · split at h
    · cases h
      simp [*]
    · cases h
    · cases h
      simp [*]

theorem consume_ok {x : Unit} (h : consume s = .ok x u) : u = s.consumed :=
  advance_ok (s := s.trace (.matched s.head)) h

theorem expect_ok {x : Unit} (h : expect k s = .ok x u) :
    s.head.kind = k ∧ u = s.consumed := by
  obtain ⟨hk, hconsume⟩ := ok_of_check h
  exact ⟨headIs_iff.mp hk, consume_ok hconsume⟩

/-- A token of a kind that does not end the input is matched. -/
theorem expect_course {x : Unit} (hk : k ≠ .endOfFile) (h : expect k s = .ok x u) :
    Course s u := by
  obtain ⟨hhead, rfl⟩ := expect_ok h
  exact .matched (hhead ▸ hk)

/-- Tokens are skipped one after the other. -/
theorem skipTo_course {x : Unit} (h : skipTo find s = .ok x u) : Course s u := by
  induction s using skipping_induction find with
  | stops s hstop =>
    rw [skipTo_stop hstop] at h
    cases h
    exact .refl _
  | goes s hout hne ih =>
    rw [skipTo_step hout hne] at h
    obtain ⟨_, t, hadvance, hskip⟩ := ok_of_bind h
    obtain rfl : t = s.skipped := advance_ok hadvance
    exact .trans (.skipped hne) (ih hskip)

/-- None of the tokens that are skipped is looked for. -/
theorem skipTo_passed {x : Unit} (h : skipTo find s = .ok x u) :
    ∃ passed, s.ahead = passed ++ u.ahead ∧ ∀ t ∈ passed, t.kind ∉ find := by
  induction s using skipping_induction find with
  | stops s hstop =>
    rw [skipTo_stop hstop] at h
    cases h
    exact ⟨[], rfl, List.forall_mem_nil _⟩
  | goes s hout hne ih =>
    rw [skipTo_step hout hne] at h
    obtain ⟨_, t, hadvance, hskip⟩ := ok_of_bind h
    obtain rfl : t = s.skipped := advance_ok hadvance
    obtain ⟨passed, hahead, hpassed⟩ := ih hskip
    have hskipped : s.ahead = s.head :: s.skipped.ahead :=
      ahead_of_ne (s := s.trace (.skipped s.head)) hne
    exact ⟨s.head :: passed, by rw [hskipped, hahead, List.cons_append],
      List.forall_mem_cons.mpr ⟨hout, hpassed⟩⟩

/-- A token that is asked for is matched, here or behind what is skipped, or it is missing. -/
theorem demand_course {b : Bool} (hk : k ≠ .endOfFile) (h : demand k recover s = .ok b u) :
    Course s u := by
  by_cases hhere : s.head.kind = k
  · rw [demand_here recover hhere] at h
    obtain ⟨_, t, hconsume, hrest⟩ := ok_of_bind h
    obtain rfl := consume_ok hconsume
    cases hrest
    exact .matched (hhere ▸ hk)
  · rw [demand_missing recover hhere] at h
    obtain ⟨_, t, hskip, hrest⟩ := ok_of_bind h
    have hreach : Course s t := (Course.report s _ _).trans (skipTo_course hskip)
    change (if t.headIs k = true then _ else _ : StreamM Bool) t = _ at hrest
    by_cases hfound : t.head.kind = k
    · rw [if_pos (headIs_iff.mpr hfound)] at hrest
      obtain ⟨_, v, hmodify, hrest⟩ := ok_of_bind hrest
      obtain ⟨_, w, hconsume, hreturn⟩ := ok_of_bind hrest
      cases hmodify
      cases hreturn
      obtain rfl := consume_ok hconsume
      exact hreach.trans ((Course.resynchronised t k).trans
        (.matched (s := t.trace (.resynchronised k)) (hfound ▸ hk)))
    · rw [if_neg (mt headIs_iff.mp hfound)] at hrest
      cases hrest
      exact hreach

/-! ### Rule brackets -/

theorem beginCertain_ok {x : Unit} (h : beginCertain rule starts s = .ok x u) :
    s.head.kind ∈ starts ∧ u = s.opened rule := by
  obtain ⟨hstart, hpush⟩ := ok_of_check h
  cases hpush
  exact ⟨headIn_iff.mp hstart, rfl⟩

/-- A rule is entered, here or behind what is skipped, or it is abandoned. -/
theorem beginRule_course {b : Bool} (h : beginRule rule starts recover s = .ok b u) :
    (b = true ∧ ∃ v, Course s v ∧ v.head.kind ∈ starts ∧ u = v.opened rule) ∨
      (b = false ∧ Course s u) := by
  by_cases hhere : s.head.kind ∈ starts
  · rw [beginRule_here rule recover hhere] at h
    cases h
    exact .inl ⟨rfl, s, .refl s, hhere, rfl⟩
  · rw [beginRule_missing rule recover hhere] at h
    obtain ⟨_, t, hskip, hrest⟩ := ok_of_bind h
    have hreach : Course s t := (Course.report s _ _).trans (skipTo_course hskip)
    change (if t.headIn starts = true then _ else _ : StreamM Bool) t = _ at hrest
    by_cases hfound : t.head.kind ∈ starts
    · rw [if_pos (headIn_iff.mpr hfound)] at hrest
      cases hrest
      exact .inl ⟨rfl, t, hreach, hfound, rfl⟩
    · rw [if_neg (mt headIn_iff.mp hfound)] at hrest
      cases hrest
      exact .inr ⟨rfl, hreach.trans (.abandoned t rule)⟩

/-- Where a rule is entered behind its place, that is reported, and the tokens that are passed
    over cannot start it. -/
theorem beginRule_found (h : beginRule rule starts recover s = .ok true u) :
    (s.head.kind ∈ starts ∧ u = s.opened rule) ∨
      ∃ v passed, u = v.opened rule ∧ v.head.kind ∈ starts ∧
        Onward (s.report (.cannotStart rule s.head) s.head.location) v ∧
        s.ahead = passed ++ v.ahead ∧ s.head.kind ∉ starts ∧ ∀ t ∈ passed, t.kind ∉ starts := by
  by_cases hhere : s.head.kind ∈ starts
  · rw [beginRule_here rule recover hhere] at h
    cases h
    exact .inl ⟨hhere, rfl⟩
  · rw [beginRule_missing rule recover hhere] at h
    obtain ⟨_, t, hskip, hrest⟩ := ok_of_bind h
    change (if t.headIn starts = true then _ else _ : StreamM Bool) t = _ at hrest
    by_cases hfound : t.head.kind ∈ starts
    · rw [if_pos (headIn_iff.mpr hfound)] at hrest
      cases hrest
      obtain ⟨passed, hahead, hpassed⟩ := skipTo_passed hskip
      refine .inr ⟨t, passed, rfl, hfound, (skipTo_course hskip).onward, hahead, hhere, ?_⟩
      intro x hx hstart
      exact hpassed x hx (KindSet.mem_union.mpr (.inl hstart))
    · rw [if_neg (mt headIn_iff.mp hfound)] at hrest
      cases hrest

/-- A rule is closed, and what cannot follow it is skipped. -/
theorem endRule_course {x : Unit} (h : endRule rule recover s = .ok x u) :
    Course (s.closed rule) u := by
  obtain ⟨-, hrest⟩ := ok_of_check (s := { s with rules := s.rules.tail }) h
  change (if s.headIn recover = true then _ else _ : StreamM Unit) (s.closed rule) = _ at hrest
  by_cases hin : s.head.kind ∈ recover
  · rw [if_pos (headIn_iff.mpr hin)] at hrest
    cases hrest
    exact .refl _
  · rw [if_neg (mt headIn_iff.mp hin)] at hrest
    exact (Course.report (s.closed rule) _ _).trans
      (skipTo_course (s := (s.closed rule).report (.cannotFollow s.head rule) s.head.location)
        hrest)

/-! ### Passing over parentheses -/

/-- Tokens are matched one after the other up to the parenthesis that closes. -/
theorem closeOver_course {n : Nat} {x : Unit} (h : closeOver rules n head rest journal = .ok x u) :
    Course ⟨head, rest, rules, journal⟩ u := by
  induction rest generalizing head journal n with
  | nil =>
    unfold closeOver at h
    split at h
    · cases h
      exact .refl _
    · rename_i hgo
      have hne : head.kind ≠ .endOfFile := by simpa using hgo
      cases h
      have hmatched := Course.matched (s := ⟨head, [], rules, journal⟩) hne
      exact next_last hne ▸ hmatched
  | cons scan rest ih =>
    unfold closeOver at h
    split at h
    · cases h
      exact .refl _
    · rename_i hgo
      have hne : head.kind ≠ .endOfFile := by simpa using hgo
      cases scan with
      | overlong n => cases h
      | token t fault =>
        have hmatched : Course ⟨head, .token t fault :: rest, rules, journal⟩
            ⟨t, rest, rules, reported t fault (.trace rules.length (.matched head) :: journal)⟩ :=
          next_token hne ▸ Course.matched (s := ⟨head, .token t fault :: rest, rules, journal⟩) hne
        dsimp only at h
        split at h
        · exact hmatched.trans (ih h)
        · split at h
          · cases n with
            | zero =>
              cases h
              exact hmatched
            | succ n => exact hmatched.trans (ih h)
          · exact hmatched.trans (ih h)

theorem skipParenthesised_course {x : Unit} (h : skipParenthesised s = .ok x u) :
    Course s u :=
  closeOver_course h

end PlZero.Stream
