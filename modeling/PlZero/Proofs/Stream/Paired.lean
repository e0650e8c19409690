/-
  PlZero/Proofs/Stream/Paired.lean
  ================================
  **What is passed over between parentheses.**  Tokens whose parentheses are balanced leave
  the number of open parentheses as it was, so the loop that looks for the partner of a
  parenthesis passes over them, whatever they are, and takes the parenthesis behind them
  (`skipParenthesised_paired`).
-/
import PlZero.Proofs.Stream.Operations

namespace PlZero

/-- Tokens of which every parenthesis has its partner among them, and none of which ends the
    input. -/
inductive Paired : List Token → Prop
  | nil : Paired []
  | single {t : Token} (plain : t.kind ∉ ({.leftParen, .rightParen, .endOfFile} : KindSet)) :
      Paired [t]
  | append {ts us : List Token} (first : Paired ts) (second : Paired us) :
      Paired (ts ++ us)
  | parens {opening closing : Token} {ts : List Token} (left : opening.kind = .leftParen)
      (inside : Paired ts) (right : closing.kind = .rightParen) :
      Paired (opening :: (ts ++ [closing]))

variable {ts us : List Token} {t : Token}

theorem Paired.cons (plain : t.kind ∉ ({.leftParen, .rightParen, .endOfFile} : KindSet))
    (h : Paired ts) : Paired (t :: ts) :=
  (Paired.single plain).append h

theorem Paired.ne_end (h : Paired ts) : ∀ t ∈ ts, t.kind ≠ .endOfFile := by
  induction h with
  | nil => simp
  | single plain =>
    rw [List.forall_mem_singleton]
    intro hk
    rw [hk] at plain
    exact plain (by decide)
  | append _ _ ih ih' => exact List.forall_mem_append.mpr ⟨ih, ih'⟩
  | parens left _ right ih =>
    rw [List.forall_mem_cons, List.forall_mem_append, List.forall_mem_singleton, left, right]
    exact ⟨by decide, ih, by decide⟩

namespace Stream

variable {s u v : Stream} {openCount : Nat}

/-- A stream behind some tokens of another, with nothing reported since. -/
structure Behind (ts : List Token) (s u : Stream) : Prop where
  ahead : s.ahead = ts ++ u.ahead
  rest : u.rest <:+ s.rest
  rules : u.rules = s.rules
  reports : s.Faultless → u.reports = s.reports

theorem Behind.refl (s : Stream) : Behind [] s s :=
  ⟨rfl, List.suffix_refl _, rfl, fun _ => rfl⟩

theorem Behind.trans (h : Behind ts s u) (h' : Behind us u v) : Behind (ts ++ us) s v := by
  refine ⟨?_, h'.rest.trans h.rest, h'.rules.trans h.rules, fun hs => ?_⟩
  · rw [h.ahead, h'.ahead, List.append_assoc]
  · rw [h'.reports (hs.of_suffix h.rest), h.reports hs]

theorem Behind.consumed (h : s.ahead = t :: ts) : Behind [t] s s.consumed := by
  refine ⟨?_, (Moved.consumed s).toOnward.rest, rules_consumed s, reports_consumed⟩
  rw [ahead_consumed, h, List.tail_cons]
  rfl

/-- The loop that looks for the partner of a parenthesis, from the head of a stream. -/
def close (openCount : Nat) (s : Stream) : EStateM.Result Abort Stream Unit :=
  closeOver s.rules openCount s.head s.rest s.journal

theorem close_token (h : s.Clear) (hahead : s.ahead = t :: ts) :
    close openCount s =
      if t.kind == .leftParen then close (openCount + 1) s.consumed
      else if t.kind == .rightParen then
        match openCount with
        | 0 => .ok () s.consumed
        | n + 1 => close n s.consumed
      else close openCount s.consumed := by
  obtain ⟨hhead, hne, -⟩ := head_of_ahead hahead
  obtain ⟨head, rest, rules, journal⟩ := s
  obtain rfl : head = t := hhead
  cases rest with
  | nil =>
    -- the input ends behind the token, and there the loop stops whatever it looks for
    have hstop : ∀ n, close n (consumed ⟨head, [], rules, journal⟩) =
        .ok () (consumed ⟨head, [], rules, journal⟩) := by
      intro n
      rw [consumed, trace, next_last hne]
      exact closeOver_stop rfl
    have hclose : close openCount ⟨head, [], rules, journal⟩ =
        .ok () (consumed ⟨head, [], rules, journal⟩) := by
      rw [consumed, trace, next_last hne]
      exact closeOver_last hne
    rw [hclose, hstop, hstop]
    cases openCount with
    | zero => simp only [ite_self]
    | succ n => simp only [hstop, ite_self]
  | cons x rest =>
    cases x with
    | overlong n => exact absurd List.mem_cons_self (h n)
    | token u fault =>
      rw [consumed, trace, next_token hne]
      exact closeOver_token hne

/-- Tokens whose parentheses are balanced leave the number of open parentheses as it was. -/
theorem close_paired (hts : Paired ts) (openCount : Nat) (h : s.Clear)
    (hahead : s.ahead = ts ++ us) :
    ∃ u, close openCount s = close openCount u ∧ Behind ts s u := by
  induction hts generalizing openCount s us with
  | nil => exact ⟨s, rfl, .refl s⟩
  | @single t plain =>
    have hleft : ¬ (t.kind == .leftParen) = true := fun hk =>
      plain (KindSet.mem_insert.mpr (.inl (beq_iff_eq.mp hk)))
    have hright : ¬ (t.kind == .rightParen) = true := fun hk =>
      plain (KindSet.mem_insert.mpr (.inr (KindSet.mem_insert.mpr (.inl (beq_iff_eq.mp hk)))))
    rw [close_token h hahead, if_neg hleft, if_neg hright]
    exact ⟨s.consumed, rfl, .consumed hahead⟩
  | append _ _ ih ih' =>
    rw [List.append_assoc] at hahead
    obtain ⟨u, hu, hsu⟩ := ih openCount h hahead
    have hbehind : u.ahead = _ ++ us := List.append_cancel_left (hsu.ahead.symm.trans hahead)
    obtain ⟨v, hv, huv⟩ := ih' openCount (h.of_suffix hsu.rest) hbehind
    exact ⟨v, hu.trans hv, hsu.trans huv⟩
  | @parens opening closing ts left inside right ih =>
    have hopen := Behind.consumed hahead
    have hinside : s.consumed.ahead = ts ++ (closing :: us) := by
      rw [ahead_consumed, hahead, List.cons_append, List.tail_cons, List.append_assoc]
      rfl
    obtain ⟨u, hu, hsu⟩ := ih (openCount + 1) (h.of_suffix hopen.rest) hinside
    have hbehind : u.ahead = closing :: us := List.append_cancel_left (hsu.ahead.symm.trans hinside)
    have hclear : u.Clear := h.of_suffix (hsu.rest.trans hopen.rest)
    refine ⟨u.consumed, ?_, (hopen.trans hsu).trans (.consumed hbehind)⟩
    rw [close_token h hahead, if_pos (beq_iff_eq.mpr left), hu, close_token hclear hbehind,
      if_neg (by rw [right]; decide), if_pos (beq_iff_eq.mpr right)]

/-- What stands between a parenthesis that was consumed and its partner is passed over, and
    the partner is consumed. -/
theorem skipParenthesised_paired {closing : Token} (hts : Paired ts)
    (hclosing : closing.kind = .rightParen) (h : s.Clear) (hahead : s.ahead = ts ++ closing :: us) :
    ∃ u, skipParenthesised s = .ok () u ∧ Behind (ts ++ [closing]) s u := by
  obtain ⟨u, hu, hsu⟩ := close_paired hts 0 h hahead
  have hbehind : u.ahead = closing :: us := List.append_cancel_left (hsu.ahead.symm.trans hahead)
  refine ⟨u.consumed, ?_, hsu.trans (.consumed hbehind)⟩
  show close 0 s = _
  rw [hu, close_token (h.of_suffix hsu.rest) hbehind, if_neg (by rw [hclosing]; decide),
    if_pos (beq_iff_eq.mpr hclosing)]

end Stream

end PlZero
