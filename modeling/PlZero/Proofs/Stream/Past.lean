/-
  PlZero/Proofs/Stream/Past.lean
  ==============================
  **What a skip passes over.**  A skip passes over the tokens that are not looked for and
  stops before the first that is (`skipTo_past`).  So where an operation does not find what it
  looks for, and the tokens to skip are known, the stream afterwards can be written out: an
  error is reported at the head token, and as many tokens are skipped as are in the way.
-/
import PlZero.Proofs.Stream.Operations

namespace PlZero.Stream

variable {s : Stream} {find starts recover follow : KindSet} {rule : String} {k : Kind}
  {us ts : List Token}

/-- The stream behind as many tokens that are skipped. -/
def past : Nat → Stream → Stream
  | 0, s => s
  | n + 1, s => past n s.skipped

@[simp] theorem past_rules (n : Nat) (s : Stream) : (past n s).rules = s.rules := by
  induction n generalizing s with
  | zero => rfl
  | succ n ih => exact (ih s.skipped).trans (rules_next _)

theorem past_ahead (n : Nat) (s : Stream) : (past n s).ahead = s.ahead.drop n := by
  induction n generalizing s with
  | zero => rfl
  | succ n ih =>
    have hskipped : s.skipped.ahead = s.ahead.tail := ahead_next _
    rw [past, ih, hskipped, List.drop_tail]

theorem past_rest (n : Nat) (s : Stream) : (past n s).rest <:+ s.rest := by
  induction n generalizing s with
  | zero => exact List.suffix_refl _
  | succ n ih => exact (ih s.skipped).trans (rest_next _)

/-- Where no token has a fault, skipping reports nothing. -/
theorem past_reports (n : Nat) (h : s.Faultless) : (past n s).reports = s.reports := by
  induction n generalizing s with
  | zero => rfl
  | succ n ih =>
    have hskipped : s.skipped.Faultless := h.of_suffix (rest_next _)
    exact (ih hskipped).trans (reports_next (s := s.trace (.skipped s.head)) h)

/-! ### Skipping -/

/-- A skip passes over the tokens that are not looked for. -/
theorem skipTo_past (h : s.Clear) (hahead : s.ahead = us ++ ts)
    (hout : ∀ u ∈ us, u.kind ∉ find) (hstop : ∀ t, ts.head? = some t → t.kind ∈ find) :
    skipTo find s = .ok () (past us.length s) := by
  induction us generalizing s with
  | nil =>
    refine skipTo_stop ?_
    by_cases hend : s.head.kind = .endOfFile
    · exact .inr hend
    · have hhead : ts.head? = some s.head := by
        rw [← List.nil_append ts, ← hahead, ahead_of_ne hend, List.head?_cons]
      exact .inl (hstop _ hhead)
  | cons u us ih =>
    obtain ⟨hhead, hne, hrest⟩ := head_of_ahead hahead
    have hskipped : s.skipped.ahead = us ++ ts := by
      show (next _).ahead = _
      rw [ahead_next, ahead_trace, hahead, List.cons_append, List.tail_cons]
    rw [skipTo_goes h (hhead ▸ hout u List.mem_cons_self) (hhead ▸ hne)]
    exact ih (h.of_suffix (rest_next _)) hskipped fun v hv => hout v (List.mem_cons_of_mem _ hv)

/-! ### Operations that skip -/

section

variable (h : s.Clear) (hahead : s.ahead = us ++ ts)
include h hahead

/-- A rule is entered behind the tokens that stand before its start. -/
theorem beginRule_past (hhead : s.head.kind ∉ starts)
    (hout : ∀ u ∈ us, u.kind ∉ starts ∪ recover) {t : Token} (hts : ts.head? = some t)
    (hstart : t.kind ∈ starts) : beginRule rule starts recover s = .ok true
      ((past us.length (s.report (.cannotStart rule s.head) s.head.location)).opened rule) := by
  have hstop : ∀ u, ts.head? = some u → u.kind ∈ starts ∪ recover := by
    intro u hu
    rw [hts] at hu
    cases hu
    exact KindSet.mem_union.mpr (.inl hstart)
  obtain ⟨vs, rfl⟩ := List.head?_eq_some_iff.mp hts
  have hfound : (past us.length (s.report (.cannotStart rule s.head) s.head.location)).head =
      t := by
    have hbehind : (past us.length (s.report (.cannotStart rule s.head) s.head.location)).ahead =
        t :: vs := by
      rw [past_ahead, ahead_report, hahead, List.drop_left]
    exact (head_of_ahead hbehind).1
  rw [beginRule_missing rule recover hhead]
  have hskip := skipTo_past (s := s.report (.cannotStart rule s.head) s.head.location) h hahead
    hout hstop
  refine (bind_of_ok (m := skipTo _) hskip).trans ?_
  show (if headIn _ starts = true then _ else _ : StreamM Bool) _ = _
  rw [if_pos (headIn_iff.mpr (hfound ▸ hstart))]
  rfl

/-- A rule is left behind the tokens that cannot follow it. -/
theorem endRule_past (hrule : s.rules.head? = some rule) (hhead : s.head.kind ∉ recover)
    (hout : ∀ u ∈ us, u.kind ∉ recover) (hstop : ∀ t, ts.head? = some t → t.kind ∈ recover) :
    endRule rule recover s = .ok () (past us.length
      ((s.closed rule).report (.cannotFollow s.head rule) s.head.location)) := by
  rw [endRule_innermost recover hrule, if_neg (mt headIn_iff.mp hhead)]
  exact skipTo_past (s := (s.closed rule).report (.cannotFollow s.head rule) s.head.location) h
    hahead hout hstop

end

end PlZero.Stream
