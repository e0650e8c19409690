/-
  PlZero/Proofs/Stream/Unread.lean
  ================================
  **What can still be read.**  Behind the first token that ends the input there is nothing, and
  where the scans run out before, the end of the input stands at the last token.  `Scan.closed`
  are the scans with both made explicit, and `Stream.unread` are the tokens among them: those of
  `Stream.ahead`, and behind them the end of the input (`unread_eq`).

  Taking tokens off the stream takes them off the front of this list, and the only diagnostics
  are the faults of the tokens that turn up (`Further`).  The end of the input is not taken off.
  A skip goes to the first token that is looked for, or to the end of the input
  (`skipTo_reach`).  Neither ends but at digits too long to read.
-/
import PlZero.Proofs.Stream.Alike

namespace PlZero

namespace Scan

/-- What there is to scan behind a token.  Digits too long to read hide what is behind them. -/
def closed : Token → List Scan → List Scan
  | head, rest =>
    if head.kind = .endOfFile then []
    else match rest with
      | [] => [.token (.endOfFile head.location) none]
      | .overlong n :: _ => [.overlong n]
      | .token t fault :: rest => .token t fault :: closed t rest
  termination_by structural _ rest => rest

variable {head t : Token} {fault : Option Problem} {rest : List Scan} {n : Nat}

theorem closed_end (h : head.kind = .endOfFile) : closed head rest = [] := by
  unfold closed
  cases rest <;> exact if_pos h

theorem closed_last (h : head.kind ≠ .endOfFile) :
    closed head [] = [.token (.endOfFile head.location) none] :=
  if_neg h

theorem closed_overlong (h : head.kind ≠ .endOfFile) :
    closed head (.overlong n :: rest) = [.overlong n] :=
  if_neg h

theorem closed_token (h : head.kind ≠ .endOfFile) :
    closed head (.token t fault :: rest) = .token t fault :: closed t rest :=
  if_neg h

end Scan

namespace Stream

variable {s t u : Stream} {find : KindSet} {k : Kind} {p q : List Token}

/-- The tokens from the head on, through the end of the input. -/
def unread (s : Stream) : List Token :=
  s.head :: (Scan.closed s.head s.rest).filterMap Scan.token?

/-- What can still be read from the first token on of a kind in `find`, or else from the end of
    the input on. -/
def reach (s : Stream) (find : KindSet) : List Token :=
  s.unread.dropWhile fun u => decide (u.kind ∉ find ∧ u.kind ≠ .endOfFile)

/-- Where no digits too long to read lie ahead, the tokens before the end of the input can be read,
    and then the end of the input. -/
theorem unread_eq (h : s.Clear) : ∃ e, e.kind = .endOfFile ∧ s.unread = s.ahead ++ [e] := by
  rcases s with ⟨head, rest, rules, journal⟩
  induction rest generalizing head with
  | nil =>
    by_cases hend : head.kind = .endOfFile
    · exact ⟨head, hend, by rw [unread, Scan.closed_end hend, ahead_of_end hend]; rfl⟩
    · refine ⟨.endOfFile head.location, rfl, ?_⟩
      rw [unread, Scan.closed_last hend, ahead_of_ne hend, next_last hend, ahead_of_end rfl]
      rfl
  | cons x rest ih =>
    by_cases hend : head.kind = .endOfFile
    · exact ⟨head, hend, by rw [unread, Scan.closed_end hend, ahead_of_end hend]; rfl⟩
    · cases x with
      | overlong n => exact absurd List.mem_cons_self (h n)
      | token t fault =>
        obtain ⟨e, he, hrest⟩ := ih t fun n hn => h n (List.mem_cons_of_mem _ hn)
        refine ⟨e, he, ?_⟩
        rw [ahead_of_ne hend, next_token hend, List.cons_append]
        rw [unread, Scan.closed_token hend]
        exact congrArg (head :: ·) hrest

theorem head_unread (s : Stream) : s.unread = s.head :: s.unread.tail := rfl

/-- A token that is looked for is reached where it stands. -/
theorem reach_of_head (h : s.head.kind ∈ find ∨ s.head.kind = .endOfFile) :
    s.reach find = s.unread := by
  rw [reach, head_unread, List.dropWhile_cons_of_neg]
  simpa [or_iff_not_imp_left] using h

/-- An operation that ends the run only at digits too long to read returns where there are none
    ahead. -/
theorem returns_of_clear {α : Type} {m : StreamM α} (h : s.Clear)
    (hends : ∀ a u, m s = .error a u → ∃ n, a = .longDigitRun n ∧ Scan.overlong n ∈ s.rest) :
    ∃ x u, m s = .ok x u := by
  cases hm : m s with
  | ok x u => exact ⟨x, u, rfl⟩
  | error a u =>
    obtain ⟨n, -, hn⟩ := hends a u hm
    exact absurd hn (h n)

/-! ### Taking tokens off -/

/-- The stream `t` is `s` behind the tokens `taken`.  What was reported on the way are the faults
    of the tokens that were scanned. -/
structure Further (taken : List Token) (s t : Stream) : Prop where
  rules : t.rules = s.rules
  unread : s.unread = taken ++ t.unread
  pulled : ∃ pulled, s.rest = pulled ++ t.rest ∧
    t.diagnostics = s.diagnostics ++ pulled.filterMap Scan.diagnostic?

namespace Further

theorem refl (s : Stream) : Further [] s s := ⟨rfl, rfl, [], rfl, (List.append_nil _).symm⟩

theorem trans (h : Further p s t) (h' : Further q t u) : Further (p ++ q) s u := by
  obtain ⟨pulled, hrest, hdiagnostics⟩ := h.pulled
  obtain ⟨pulled', hrest', hdiagnostics'⟩ := h'.pulled
  refine ⟨h'.rules.trans h.rules, ?_, pulled ++ pulled', ?_, ?_⟩
  · rw [h.unread, h'.unread, List.append_assoc]
  · rw [hrest, hrest', List.append_assoc]
  · rw [hdiagnostics', hdiagnostics, List.filterMap_append, List.append_assoc]

theorem trace (s : Stream) (a : Action) : Further [] s (s.trace a) := by
  refine ⟨rfl, rfl, [], rfl, ?_⟩
  rw [List.filterMap_nil, List.append_nil]
  exact Journal.diagnostics_trace _ _ _

theorem suffix (h : Further p s t) : t.unread <:+ s.unread :=
  h.unread ▸ List.suffix_append _ _

theorem rest (h : Further p s t) : t.rest <:+ s.rest := by
  obtain ⟨pulled, hrest, -⟩ := h.pulled
  exact hrest ▸ List.suffix_append _ _

end Further

/-- What is taken off when the head is consumed: the end of the input stays. -/
def taken (s : Stream) : List Token := if s.head.kind = .endOfFile then [] else [s.head]

theorem advance_further {x : Unit} (h : advance s = .ok x u) : Further s.taken s u := by
  rcases s with ⟨head, rest, rules, journal⟩
  by_cases hend : head.kind = .endOfFile
  · rw [advance_end hend] at h
    cases h
    rw [taken, if_pos hend]
    exact .refl _
  · rw [taken, if_neg hend]
    rcases rest with _ | ⟨⟨t, fault⟩ | n, rest⟩
    · obtain rfl := advance_ok h
      rw [next_last hend]
      refine ⟨rfl, ?_, [], rfl, (List.append_nil _).symm⟩
      rw [unread, unread, Scan.closed_last hend, Scan.closed_end rfl]
      rfl
    · obtain rfl := advance_ok h
      rw [next_token hend]
      refine ⟨rfl, ?_, [.token t fault], rfl, Journal.diagnostics_reported t fault journal⟩
      rw [unread, unread, Scan.closed_token hend]
      rfl
    · rw [advance_overlong hend rfl] at h
      cases h

/-- Moving on ends the run only at digits too long to read. -/
theorem advance_error {a : Abort} (h : advance s = .error a u) :
    u.rules = s.rules ∧ ∃ n, a = .longDigitRun n ∧ Scan.overlong n ∈ s.rest := by
  unfold advance at h
  split at h
  · cases h
  · split at h
    · cases h
    · rename_i n rest hrest
      cases h
      exact ⟨rfl, n, rfl, hrest ▸ List.mem_cons_self⟩
    · cases h

theorem consume_error {a : Abort} (h : consume s = .error a u) :
    u.rules = s.rules ∧ ∃ n, a = .longDigitRun n ∧ Scan.overlong n ∈ s.rest :=
  advance_error (s := s.trace (.matched s.head)) h

theorem consume_further {x : Unit} (h : consume s = .ok x u) : Further s.taken s u :=
  (Further.trace s _).trans (advance_further (s := s.trace (.matched s.head)) h)

/-- A token is taken off, but the end of the input stays. -/
theorem Further.unread_taken (h : Further s.taken s u) :
    u.unread = if s.head.kind = .endOfFile then s.unread else s.unread.tail := by
  have hunread := h.unread
  by_cases hend : s.head.kind = .endOfFile
  · rw [taken, if_pos hend, List.nil_append] at hunread
    rw [if_pos hend, hunread]
  · rw [taken, if_neg hend] at hunread
    rw [if_neg hend, hunread]
    rfl

/-- The end of the input stays the head. -/
theorem Further.head_taken (h : Further s.taken s u) (hend : s.head.kind = .endOfFile) :
    u.head = s.head := by
  have hunread := h.unread_taken
  rw [if_pos hend] at hunread
  exact (List.cons.inj hunread).1

/-! ### Skipping -/

/-- A skip takes off tokens that are not looked for, and stops at one that is, or at the end of
    the input. -/
theorem skipTo_further {x : Unit} (h : skipTo find s = .ok x u) :
    ∃ skipped, Further skipped s u ∧ (∀ t ∈ skipped, t.kind ∉ find ∧ t.kind ≠ .endOfFile) ∧
      (u.head.kind ∈ find ∨ u.head.kind = .endOfFile) := by
  induction s using skipping_induction find with
  | stops s hstop =>
    rw [skipTo_stop hstop] at h
    cases h
    exact ⟨[], .refl _, List.forall_mem_nil _, hstop⟩
  | goes s hout hne ih =>
    rw [skipTo_step hout hne] at h
    obtain ⟨_, t, hadvance, hskip⟩ := ok_of_bind h
    have hfirst : Further [s.head] s t := by
      have hmoved := (Further.trace s (.skipped s.head)).trans (advance_further hadvance)
      have htaken : (s.trace (.skipped s.head)).taken = [s.head] := if_neg hne
      rwa [htaken] at hmoved
    obtain rfl : t = s.skipped := advance_ok hadvance
    obtain ⟨skipped, hfurther, hskipped, hstop⟩ := ih hskip
    exact ⟨s.head :: skipped, hfirst.trans hfurther,
      List.forall_mem_cons.mpr ⟨⟨hout, hne⟩, hskipped⟩, hstop⟩

/-- A skip goes to the first token that is looked for, or to the end of the input. -/
theorem skipTo_reach {x : Unit} (h : skipTo find s = .ok x u) : u.unread = s.reach find := by
  obtain ⟨skipped, hfurther, hskipped, hstop⟩ := skipTo_further h
  rw [reach, hfurther.unread, List.dropWhile_append_of_pos (by simpa using hskipped)]
  exact (reach_of_head hstop).symm

/-- A skip ends the run only at digits too long to read. -/
theorem skipTo_error {a : Abort} (h : skipTo find s = .error a u) :
    u.rules = s.rules ∧ ∃ n, a = .longDigitRun n ∧ Scan.overlong n ∈ s.rest := by
  induction s using skipping_induction find with
  | stops s hstop =>
    rw [skipTo_stop hstop] at h
    cases h
  | goes s hout hne ih =>
    rw [skipTo_step hout hne] at h
    rcases error_of_bind h with hadvance | ⟨_, t, hadvance, hskip⟩
    · exact advance_error (s := s.trace (.skipped s.head)) hadvance
    · obtain rfl : t = s.skipped := advance_ok hadvance
      obtain ⟨hrules, n, ha, hn⟩ := ih hskip
      have hrest : s.skipped.rest <:+ s.rest := rest_next _
      exact ⟨hrules.trans (rules_next _), n, ha, hrest.subset hn⟩

/-- The stream `t` is `s` at the first token that is looked for, or at the end of the input.
    Before it was looked for, `complaint` was reported. -/
structure Reached (find : KindSet) (complaint : List Diagnostic) (s t : Stream) : Prop where
  rules : t.rules = s.rules
  unread : t.unread = s.reach find
  stop : t.head.kind ∈ find ∨ t.head.kind = .endOfFile
  suffix : t.unread <:+ s.unread
  pulled : ∃ pulled, s.rest = pulled ++ t.rest ∧
    t.diagnostics = s.diagnostics ++ complaint ++ pulled.filterMap Scan.diagnostic?

theorem Reached.here (h : s.head.kind ∈ find) : Reached find [] s s :=
  ⟨rfl, (reach_of_head (.inl h)).symm, .inl h, List.suffix_refl _, [], rfl, by simp⟩

/-- What is missing is reported, and then it is looked for. -/
theorem Reached.missing {p : Problem} {l : Location} {x : Unit}
    (h : skipTo find (s.report p l) = .ok x u) : Reached find [⟨.error, p, l⟩] s u := by
  obtain ⟨_, hfurther, -, hstop⟩ := skipTo_further h
  obtain ⟨pulled, hrest, hdiagnostics⟩ := hfurther.pulled
  have hreport : (s.report p l).diagnostics = s.diagnostics ++ [⟨.error, p, l⟩] :=
    Journal.diagnostics_report _ _
  have hreach : u.unread = (s.report p l).reach find := skipTo_reach h
  exact ⟨hfurther.rules, hreach, hstop, hfurther.suffix, pulled, hrest, hreport ▸ hdiagnostics⟩

theorem Reached.rest {complaint : List Diagnostic} (h : Reached find complaint s t) :
    t.rest <:+ s.rest := by
  obtain ⟨pulled, hrest, -⟩ := h.pulled
  exact hrest ▸ List.suffix_append _ _

theorem Reached.reach {complaint : List Diagnostic} (h : Reached find complaint s t) :
    s.reach find = t.head :: t.unread.tail := by
  rw [← h.unread, ← head_unread]

end Stream

end PlZero
