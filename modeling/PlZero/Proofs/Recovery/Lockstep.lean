/-
  PlZero/Proofs/Recovery/Lockstep.lean
  ====================================
  **Two runs in lockstep.**  `Lockstep R Q m m'` says that a run of `m` and a run of `m'` from
  states related by `R` leave related states and return results related by `Q`, if both return.
  Every operation on a token stream runs in lockstep with itself on streams that are twins: it
  looks at nothing of a token but its kind, and it reports at the head token.
-/
import PlZero.Proofs.Recovery.Twins

namespace PlZero

/-! ### Two runs -/

/-- Two runs from related states leave related states and return results related by `Q`, if
    both return. -/
def Lockstep {σ α : Type} (R : σ → σ → Prop) (Q : α → α → Prop) (m m' : EStateM Abort σ α) :
    Prop :=
  ∀ s s' a u a' u', R s s' → m s = .ok a u → m' s' = .ok a' u' → Q a a' ∧ R u u'

section

variable {σ α β : Type} {R : σ → σ → Prop} {Q : α → α → Prop} {P : β → β → Prop}
  {m m' : EStateM Abort σ α} {f f' : α → EStateM Abort σ β}

theorem Lockstep.pure {a a' : α} (h : Q a a') : Lockstep R Q (pure a) (pure a') := by
  intro s s' b u b' u' hs hm hm'
  cases hm
  cases hm'
  exact ⟨h, hs⟩

theorem Lockstep.bind (hm : Lockstep R Q m m')
    (hf : ∀ a a', Q a a' → Lockstep R P (f a) (f' a')) :
    Lockstep R P (m >>= f) (m' >>= f') := by
  intro s s' b u b' u' hs h h'
  obtain ⟨a, t, hma, hfa⟩ := ok_of_bind h
  obtain ⟨a', t', hma', hfa'⟩ := ok_of_bind h'
  obtain ⟨ha, ht⟩ := hm s s' a t a' t' hs hma hma'
  exact hf a a' ha t t' b u b' u' ht hfa hfa'

/-- A run that does not return is in lockstep with every other. -/
theorem Lockstep.never (h : ∀ s a u, m s ≠ .ok a u) : Lockstep R Q m m' :=
  fun s _ a u _ _ _ hm _ => absurd hm (h s a u)

/-- What is looked up in related states. -/
theorem Lockstep.look (look look' : σ → α) (hm : ∀ s, m s = .ok (look s) s)
    (hm' : ∀ s, m' s = .ok (look' s) s) (h : ∀ s s', R s s' → Q (look s) (look' s')) :
    Lockstep R Q m m' := by
  intro s s' a u a' u' hs ha ha'
  rw [hm] at ha
  rw [hm'] at ha'
  cases ha
  cases ha'
  exact ⟨h s s' hs, hs⟩

theorem Lockstep.modify {g g' : σ → σ} (hg : ∀ s s', R s s' → R (g s) (g' s')) :
    Lockstep R Eq (modify g : EStateM Abort σ Unit) (modify g') := by
  intro s s' b u b' u' hs h h'
  cases h
  cases h'
  exact ⟨rfl, hg s s' hs⟩

end

/-! ### Operations on streams -/

namespace Stream

variable {w : Counterparts} {s s' u u' : Stream} {rule : String} {starts recover find : KindSet}
  {k : Kind}

/-- An operation that looks at the state first. -/
theorem get_lockstep {α : Type} {Q : α → α → Prop} {f f' : Stream → StreamM α}
    (h : ∀ s s', Twin w s s' → Lockstep (Twin w) Q (f s) (f' s')) :
    Lockstep (Twin w) Q (get >>= f) (get >>= f') := by
  apply Lockstep.bind (Q := Twin w)
  · exact .look id id (fun _ => rfl) (fun _ => rfl) fun _ _ => id
  · exact h

/-- Checks may say something else of each head token when they fail. -/
theorem check_lockstep {c : Bool} {a a' : Assertion} {l l' : Location} :
    Lockstep (Twin w) Eq (check c a l) (check c a' l') := by
  unfold check
  cases c with
  | true => exact .pure rfl
  | false =>
    apply Lockstep.never
    intro s b u h
    cases h

/-- The problem that is reported may name the head token. -/
theorem report_head_lockstep (problem : Token → Problem)
    (h : ∀ {n} {t t' : Token}, Scan.SamePosition w.scans w.scans' n t t' →
      Problem.Twin w.scans w.scans' n (problem t) (problem t')) :
    Lockstep (Twin w) Eq
      (modify fun s => s.report (problem s.head) s.head.location : StreamM Unit)
      (modify fun s => s.report (problem s.head) s.head.location) := by
  apply Lockstep.modify
  rintro s s' ⟨n, hs⟩
  exact ⟨n, hs.report (h hs.position) hs.place⟩

theorem trace_lockstep {a : Action} (hstay : a.token? = none) :
    Lockstep (Twin w) Eq (modify fun s => s.trace a : StreamM Unit)
      (modify fun s => s.trace a) := by
  apply Lockstep.modify
  rintro s s' ⟨n, hs⟩
  refine ⟨n, hs.trace ?_ hstay⟩
  cases a with
  | opened rule => exact .opened rule
  | closed rule => exact .closed rule
  | abandoned rule => exact .abandoned rule
  | resynchronised k => exact .resynchronised k
  | matched t => cases hstay
  | skipped t => cases hstay

/-! ### Consuming tokens -/

theorem name_lockstep : Lockstep (Twin w) (fun _ _ => True) name name := by
  intro s s' x u x' u' hs h h'
  obtain rfl := name_ok h
  obtain rfl := name_ok h'
  exact ⟨trivial, hs⟩

theorem number_lockstep : Lockstep (Twin w) (fun _ _ => True) number number := by
  intro s s' x u x' u' hs h h'
  obtain rfl := number_ok h
  obtain rfl := number_ok h'
  exact ⟨trivial, hs⟩

/-- Twins at which the head tokens are passed move on to the next tokens. -/
theorem TwinAt.advance {n : Nat} {a a' : Action} {x x' : Unit} (hs : TwinAt w n s s')
    (hne : s.head.kind ≠ .endOfFile) (ha : Action.Twin w.scans w.scans' n a a')
    (hpass : Event.passes (.trace s.depth a) = true)
    (h : Stream.advance (s.trace a) = .ok x u) (h' : Stream.advance (s'.trace a') = .ok x' u') :
    Twin w u u' := by
  have hdepth : s'.depth = s.depth := congrArg List.length hs.rules
  have hevent : Event.Twin w.scans w.scans' n (.trace s.depth a) (.trace s'.depth a') := by
    rw [hdepth]
    exact .trace s.depth ha
  have hne' : s'.head.kind ≠ .endOfFile := hs.position.kind ▸ hne
  rcases hs.rest_cases hne with
    ⟨m, rest, hrest⟩ | ⟨t, fault, rest, t', fault', rest', hrest, hrest'⟩
  · rw [advance_overlong (s := s.trace _) hne hrest] at h
    cases h
  · rw [advance_token (s := s.trace _) hne hrest] at h
    rw [advance_token (s := s'.trace _) hne' hrest'] at h'
    cases h
    cases h'
    exact ⟨n + 1, hs.moved hevent hpass hrest hrest'⟩

/-- The head tokens are matched.  At the end of the input the streams stay where they are. -/
theorem consume_lockstep : Lockstep (Twin w) Eq consume consume := by
  rintro s s' a u a' u' ⟨n, hs⟩ h h'
  refine ⟨rfl, ?_⟩
  have hadvance : Stream.advance (s.trace (.matched s.head)) = .ok a u := h
  have hadvance' : Stream.advance (s'.trace (.matched s'.head)) = .ok a' u' := h'
  by_cases hend : s.head.kind = .endOfFile
  · have hend' : s'.head.kind = .endOfFile := hs.position.kind.trans hend
    have hdepth : s'.depth = s.depth := congrArg List.length hs.rules
    have hmatched : Event.Twin w.scans w.scans' n (.trace s.depth (.matched s.head))
        (.trace s'.depth (.matched s'.head)) := by
      rw [hdepth]
      exact .trace s.depth (.matched hs.position)
    rw [advance_end (s := s.trace _) hend] at hadvance
    rw [advance_end (s := s'.trace _) hend'] at hadvance'
    cases hadvance
    cases hadvance'
    exact ⟨n, hs.event hmatched (by simp [Event.passes, Action.token?, hend])⟩
  · have hpass : Event.passes (.trace s.depth (.matched s.head)) = true := by
      simp [Event.passes, Action.token?, hend]
    exact hs.advance hend (.matched hs.position) hpass hadvance hadvance'

theorem expect_lockstep : Lockstep (Twin w) Eq (expect k) (expect k) := by
  apply get_lockstep
  intro s s' hs
  rw [hs.headIs_eq]
  exact check_lockstep.bind fun _ _ _ => consume_lockstep

/-! ### Skipping -/

theorem skipTo_lockstep : Lockstep (Twin w) Eq (skipTo find) (skipTo find) := by
  intro s s' a u a' u' hs h h'
  induction s using skipping_induction find generalizing s' with
  | stops s hstop =>
    rw [skipTo_stop hstop] at h
    rw [skipTo_stop (hs.head_kind ▸ hstop)] at h'
    cases h
    cases h'
    exact ⟨rfl, hs⟩
  | goes s hout hne ih =>
    rw [skipTo_step hout hne] at h
    rw [skipTo_step (hs.head_kind ▸ hout) (hs.head_kind ▸ hne)] at h'
    obtain ⟨_, t, hadvance, hskip⟩ := ok_of_bind h
    obtain ⟨_, t', hadvance', hskip'⟩ := ok_of_bind h'
    obtain ⟨n, hs⟩ := hs
    have hpass : Event.passes (.trace s.depth (.skipped s.head)) = true := by
      simp [Event.passes, Action.token?, hne]
    have ht : Twin w t t' := hs.advance hne (.skipped hs.position) hpass hadvance hadvance'
    obtain rfl : t = s.skipped := advance_ok hadvance
    exact ih t' ht hskip hskip'

/-! ### Passing over parentheses -/

section

variable {head head' : Token} {rest rest' : List Scan}
  {rules : List String} {j j' : Journal} {openCount : Nat} {a a' : Unit}

theorem closeOver_stopped (hend : head.kind = .endOfFile)
    (hs : Twin w ⟨head, rest, rules, j⟩ ⟨head', rest', rules, j'⟩)
    (h : closeOver rules openCount head rest j = .ok a u)
    (h' : closeOver rules openCount head' rest' j' = .ok a' u') : Twin w u u' := by
  have hkind : head'.kind = head.kind := hs.head_kind
  rw [closeOver_stop hend] at h
  rw [closeOver_stop (hkind.trans hend)] at h'
  cases h
  cases h'
  exact hs

theorem closeOver_twin (hs : Twin w ⟨head, rest, rules, j⟩ ⟨head', rest', rules, j'⟩)
    (h : closeOver rules openCount head rest j = .ok a u)
    (h' : closeOver rules openCount head' rest' j' = .ok a' u') : Twin w u u' := by
  induction rest generalizing openCount head head' rest' j j' with
  | nil =>
    by_cases hend : head.kind = .endOfFile
    · exact closeOver_stopped hend hs h h'
    · obtain ⟨n, hs⟩ := hs
      exact absurd rfl (hs.rest_ne_nil hend)
  | cons x rest ih =>
    have hkind : head'.kind = head.kind := hs.head_kind
    by_cases hend : head.kind = .endOfFile
    · exact closeOver_stopped hend hs h h'
    · obtain ⟨n, hs⟩ := hs
      have hmatched := Event.Twin.trace rules.length (.matched hs.position)
      have hpass : Event.passes (.trace rules.length (.matched head)) = true := by
        simp [Event.passes, Action.token?, hend]
      rcases hs.rest_cases hend with ⟨m, behind, hrest⟩ | ⟨t, fault, behind, t', fault', behind',
        hrest, hrest'⟩
      · obtain ⟨rfl, -⟩ := List.cons.inj hrest
        rw [closeOver_overlong hend] at h
        cases h
      · obtain ⟨rfl, rfl⟩ := List.cons.inj hrest
        have hmoved := hs.moved hmatched hpass hrest hrest'
        obtain rfl : rest' = .token t' fault' :: behind' := hrest'
        rw [closeOver_token hend] at h
        rw [closeOver_token (hkind ▸ hend), hkind] at h'
        dsimp only at h h'
        by_cases hleft : (head.kind == .leftParen) = true
        · rw [if_pos hleft] at h h'
          exact ih ⟨n + 1, hmoved⟩ h h'
        · rw [if_neg hleft] at h h'
          by_cases hright : (head.kind == .rightParen) = true
          · rw [if_pos hright] at h h'
            cases openCount with
            | zero =>
              cases h
              cases h'
              exact ⟨n + 1, hmoved⟩
            | succ m => exact ih ⟨n + 1, hmoved⟩ h h'
          · rw [if_neg hright] at h h'
            exact ih ⟨n + 1, hmoved⟩ h h'

end

theorem skipParenthesised_lockstep :
    Lockstep (Twin w) Eq skipParenthesised skipParenthesised := by
  rintro ⟨head, rest, rules, j⟩ ⟨head', rest', rules', j'⟩ a u a' u' hs h h'
  obtain rfl : rules' = rules := hs.rules
  exact ⟨rfl, closeOver_twin hs h h'⟩

theorem demand_lockstep : Lockstep (Twin w) Eq (demand k recover) (demand k recover) := by
  apply get_lockstep
  intro s s' hs
  rw [hs.headIs_eq]
  split
  · exact consume_lockstep.bind fun _ _ _ => .pure rfl
  · apply (report_head_lockstep (fun _ => .expecting k) fun _ => .expecting k).bind
    intro _ _ _
    apply skipTo_lockstep.bind
    intro _ _ _
    apply get_lockstep
    intro t t' ht
    rw [ht.headIs_eq]
    split
    · apply (trace_lockstep rfl).bind
      intro _ _ _
      exact consume_lockstep.bind fun _ _ _ => .pure rfl
    · exact .pure rfl

/-! ### Rule brackets -/

theorem pushRule_lockstep : Lockstep (Twin w) Eq (pushRule rule) (pushRule rule) := by
  apply Lockstep.modify
  rintro s s' ⟨n, hs⟩
  have hopened := hs.trace (.opened rule) rfl
  exact ⟨n, hopened.first, hopened.second, congrArg (rule :: ·) hopened.rules, hopened.journal⟩

theorem beginCertain_lockstep :
    Lockstep (Twin w) Eq (beginCertain rule starts) (beginCertain rule starts) := by
  apply get_lockstep
  intro s s' hs
  rw [hs.headIn_eq]
  exact check_lockstep.bind fun _ _ _ => pushRule_lockstep

theorem beginRule_lockstep :
    Lockstep (Twin w) Eq (beginRule rule starts recover) (beginRule rule starts recover) := by
  apply get_lockstep
  intro s s' hs
  rw [hs.headIn_eq]
  split
  · exact pushRule_lockstep.bind fun _ _ _ => .pure rfl
  · apply (report_head_lockstep (.cannotStart rule) (.cannotStart rule)).bind
    intro _ _ _
    apply skipTo_lockstep.bind
    intro _ _ _
    apply get_lockstep
    intro t t' ht
    rw [ht.headIn_eq]
    split
    · exact pushRule_lockstep.bind fun _ _ _ => .pure rfl
    · exact (trace_lockstep rfl).bind fun _ _ _ => .pure rfl

theorem endRule_lockstep :
    Lockstep (Twin w) Eq (endRule rule recover) (endRule rule recover) := by
  apply get_lockstep
  intro s s' hs
  rw [hs.rules]
  apply Lockstep.bind (Q := Eq)
  · apply Lockstep.modify
    rintro t t' ⟨n, ht⟩
    exact ⟨n, ht.first, ht.second, congrArg List.tail ht.rules, ht.journal⟩
  · intro _ _ _
    apply get_lockstep
    intro t t' _
    apply check_lockstep.bind
    intro _ _ _
    apply (trace_lockstep rfl).bind
    intro _ _ _
    apply get_lockstep
    intro v v' hv
    rw [hv.headIn_eq]
    split
    · exact .pure rfl
    · apply (report_head_lockstep (fun t => .cannotFollow t rule) (.cannotFollow rule)).bind
      exact fun _ _ _ => skipTo_lockstep

end Stream

end PlZero
