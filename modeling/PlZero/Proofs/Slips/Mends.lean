/-
  PlZero/Proofs/Slips/Mends.lean
  ==============================
  **Readers that get over slips.**  `Mends R R' Q m m'` says that where a run of `m` has nothing to
  report but complaints, a run of `m'` from a state related by `R` returns as well, with a result
  related by `Q` and a state related by `R'`.  Nothing is asked where the first run reports a
  mistake in syntax, so that a rule which is looked for in the wrong place drops out; since a
  report is never taken back (`Grows`), it does so wherever it is part of another.
-/
import PlZero.Grammar.Reading
import PlZero.Proofs.Reading.Steady
import PlZero.Proofs.Slips.Script

namespace PlZero

/-! ### Runs without reports but complaints -/

namespace Stream

variable {s t : Stream} {p : Problem} {l : Location} {k : Kind} {b : Bool} {rule : String}
  {starts recover follow : KindSet}

/-- Nothing was reported but what a program of the grammar can have. -/
def Quiet (s : Stream) : Prop := Derivation.Admitted s.reports

theorem Quiet.of_suffix (h : t.Quiet) (hreports : s.reports <:+ t.reports) : s.Quiet :=
  fun d hd => h d (hreports.subset hd)

theorem Onward.loud (h : Onward (s.report p l) t) (hp : p.isComplaint = false) : ¬ t.Quiet := by
  intro hquiet
  have hcomplaint := hquiet ⟨.error, p, l⟩ (h.reports.subset List.mem_cons_self)
  exact Bool.false_ne_true (hp.symm.trans hcomplaint)

theorem demand_quiet (hs : s.Clear) (h : demand k follow s = .ok b t) (hquiet : t.Quiet) :
    s.head.kind = k ∧ t = s.consumed := by
  obtain ⟨c, u, hrun, hdemanded⟩ := demand_demanded k follow hs
  rw [h] at hrun
  cases hrun
  cases hdemanded with
  | here hk => exact ⟨hk, rfl⟩
  | missing hk moved => exact absurd hquiet (moved.toOnward.loud rfl)

theorem beginRule_quiet (hs : s.Clear) (h : beginRule rule starts recover s = .ok b t)
    (hquiet : t.Quiet) : s.head.kind ∈ starts ∧ b = true ∧ t = s.opened rule := by
  obtain ⟨c, u, hrun, hbegun⟩ := beginRule_begun rule starts recover hs
  rw [h] at hrun
  cases hrun
  cases hbegun with
  | here hstart => exact ⟨hstart, rfl, rfl⟩
  | found hstart moved => exact absurd hquiet (moved.toOnward.loud rfl)
  | lost hstart moved => exact absurd hquiet (moved.toOnward.loud rfl)

theorem endRule_quiet {x : Unit} (hs : s.Clear) (h : endRule rule recover s = .ok x t)
    (hquiet : t.Quiet) :
    s.rules.head? = some rule ∧ s.head.kind ∈ recover ∧ t = s.closed rule := by
  obtain ⟨hrule, -⟩ := ok_of_check (s := { s with rules := s.rules.tail }) h
  have hrule : s.rules.head? = some rule := beq_iff_eq.mp hrule
  obtain ⟨u, hrun, hended⟩ := endRule_ended recover hs hrule
  rw [h] at hrun
  cases hrun
  cases hended with
  | here hin => exact ⟨hrule, hin, rfl⟩
  | skipped hin moved => exact absurd hquiet (moved.toOnward.loud rfl)

/-- What was reported stays. -/
theorem Course.reports (h : Course s t) : s.reports <:+ t.reports := by
  induction h with
  | refl s => exact List.suffix_refl _
  | trans first further ih ih' => exact ih.trans ih'
  | report s p l => exact List.suffix_cons _ _
  | noted s n => exact List.suffix_refl _
  | matched hne => exact (Moved.consumed _).toOnward.reports
  | @skipped s hne => exact (Moved.next (s.trace (.skipped s.head))).toOnward.reports
  | abandoned s rule => exact List.suffix_refl _
  | resynchronised s k => exact List.suffix_refl _
  | bracket rule inside ih => exact ih

end Stream

namespace Reader

variable {α β : Type} {m m' : Reader α} {f f' : α → Reader β}

/-! ### Reports that stay -/

/-- A reader that returns has taken back nothing that was reported. -/
def Grows (m : Reader α) : Prop :=
  ∀ s a u, m s = .ok a u → s.stream.reports <:+ u.stream.reports

theorem Grows.pure {a : α} : Grows (pure a) := by
  intro s b u h
  cases h
  exact List.suffix_refl _

theorem Grows.bind (hm : Grows m) (hf : ∀ a, Grows (f a)) : Grows (m >>= f) := by
  intro s b u h
  obtain ⟨a, t, hma, hfa⟩ := ok_of_bind h
  exact (hm s a t hma).trans (hf a t b u hfa)

theorem Grows.reads {look : ReaderState → α} : Grows (reads look) := by
  intro s b u h
  cases h
  exact List.suffix_refl _

theorem Grows.onStream {op : StreamM α}
    (h : ∀ s a u, op s = .ok a u → s.reports <:+ u.reports) : Grows (onStream op) := by
  intro s a u hm
  unfold Reader.onStream at hm
  cases hop : op s.stream with
  | ok b v =>
    rw [hop] at hm
    cases hm
    exact h _ _ _ hop
  | error e v =>
    rw [hop] at hm
    cases hm

theorem Grows.whileIn {kinds : KindSet} {turn : α → Reader α} (h : ∀ a, Grows (turn a)) (a : α) :
    Grows (whileIn kinds turn a) := by
  refine Grows.reads.bind fun scans => ?_
  induction scans generalizing a with
  | nil =>
    refine Grows.reads.bind fun more => ?_
    cases more with
    | true => exact h a
    | false => exact .pure
  | cons x scans ih =>
    refine Grows.reads.bind fun more => ?_
    cases more with
    | true => exact (h a).bind ih
    | false => exact .pure

/-! ### The judgement -/

/-- Where the first of two runs reports nothing but complaints, the second returns as well. -/
structure Mends (R R' : ReaderState → ReaderState → Prop) (Q : α → α → Prop)
    (m m' : Reader α) : Prop where
  grows : Grows m
  mends : ∀ s s' a u, R s s' → m s = .ok a u → u.stream.Quiet →
    ∃ a' u', m' s' = .ok a' u' ∧ Q a a' ∧ R' u u'

section

variable {R S T R' S' : ReaderState → ReaderState → Prop} {Q Q' : α → α → Prop}
  {P : β → β → Prop}

theorem Mends.pure {a a' : α} (h : Q a a') : Mends R R Q (pure a) (pure a') where
  grows := .pure
  mends := by
    intro s s' b u hs hm _
    cases hm
    exact ⟨a', s', rfl, h, hs⟩

theorem Mends.bind_of (hm : Mends R S Q m m') (hgrows : ∀ a, Grows (f a))
    (hf : ∀ a a', Q a a' → Mends S T P (f a) (f' a')) : Mends R T P (m >>= f) (m' >>= f') where
  grows := hm.grows.bind hgrows
  mends := by
    intro s s' b u hs h hquiet
    obtain ⟨a, t, hma, hfa⟩ := ok_of_bind h
    have hbefore : t.stream.Quiet := hquiet.of_suffix (hgrows a t b u hfa)
    obtain ⟨a', t', hma', ha, ht⟩ := hm.mends s s' a t hs hma hbefore
    obtain ⟨b', u', hfa', hb, hu⟩ := (hf a a' ha).mends t t' b u ht hfa hquiet
    have hrun : (m' >>= f') s' = f' a' t' := by simp only [Bind.bind, EStateM.bind, hma']
    exact ⟨b', u', hrun.trans hfa', hb, hu⟩

theorem Mends.bind [Std.Refl Q] (hm : Mends R S Q m m')
    (hf : ∀ a a', Q a a' → Mends S T P (f a) (f' a')) : Mends R T P (m >>= f) (m' >>= f') :=
  hm.bind_of (fun a => (hf a a (Std.Refl.refl a)).grows) hf

/-- A reader may be started in fewer states, and less may be said of how it ends. -/
theorem Mends.mono (h : Mends S S' Q m m') (hR : ∀ s s', R s s' → S s s')
    (hR' : ∀ s s', S' s s' → R' s s') (hQ : ∀ a a', Q a a' → Q' a a') : Mends R R' Q' m m' where
  grows := h.grows
  mends := by
    intro s s' a u hs hm hquiet
    obtain ⟨a', u', hm', ha, hu⟩ := h.mends s s' a u (hR s s' hs) hm hquiet
    exact ⟨a', u', hm', hQ a a' ha, hR' u u' hu⟩

/-- A reader that never returns. -/
theorem Mends.never (h : ∀ s a u, m s ≠ .ok a u) : Mends R R' Q m m' :=
  ⟨fun s a u hm => absurd hm (h s a u), fun s _ a u _ hm _ => absurd hm (h s a u)⟩

/-- Where something is reported that no program of the grammar has, nothing is asked. -/
theorem Mends.loud {p : Problem} {l : Location} {f : Unit → Reader α}
    (hp : p.isComplaint = false) (hf : Grows (f ())) :
    Mends R R' Q (report p l >>= f) m' where
  grows := by
    refine Grows.bind ?_ fun _ => hf
    intro s a u h
    cases h
    exact List.suffix_cons _ _
  mends := by
    intro s s' a u _ h hquiet
    have hreported : ⟨.error, p, l⟩ ∈ u.stream.reports :=
      (hf (s.withStream (s.stream.report p l)) a u h).subset List.mem_cons_self
    exact absurd (hp.symm.trans (hquiet _ hreported)) Bool.false_ne_true

theorem Mends.reads {look look' : ReaderState → α} (h : ∀ s s', R s s' → Q (look s) (look' s')) :
    Mends R R Q (Reader.reads look) (Reader.reads look') where
  grows := .reads
  mends := by
    intro s s' a u hs hm _
    cases hm
    exact ⟨look' s', s', rfl, h s s' hs, hs⟩

theorem Mends.modify {g g' : ReaderState → ReaderState} (hg : ∀ s s', R s s' → R' (g s) (g' s'))
    (hreports : ∀ s, s.stream.reports <:+ (g s).stream.reports) :
    Mends R R' Eq (modify g : Reader Unit) (modify g') where
  grows := by
    intro s a u h
    cases h
    exact hreports s
  mends := by
    intro s s' a u hs hm _
    cases hm
    exact ⟨(), g' s', rfl, rfl, hg s s' hs⟩

theorem Mends.onStream {op op' : StreamM α}
    (hgrows : ∀ s a u, op s = .ok a u → s.reports <:+ u.reports)
    (h : ∀ s s' a v, R s s' → op s.stream = .ok a v → v.Quiet → ∃ a' v', op' s'.stream = .ok a' v' ∧
      Q a a' ∧ R' (s.withStream v) (s'.withStream v')) :
    Mends R R' Q (Reader.onStream op) (Reader.onStream op') where
  grows := .onStream hgrows
  mends := by
    intro s s' a u hs hm hquiet
    unfold Reader.onStream at hm
    cases hop : op s.stream with
    | error e v =>
      rw [hop] at hm
      cases hm
    | ok b v =>
      rw [hop] at hm
      cases hm
      obtain ⟨a', v', hop', ha, hv⟩ := h s s' a v hs hop hquiet
      refine ⟨a', s'.withStream v', ?_, ha, hv⟩
      unfold Reader.onStream
      rw [hop']
      rfl

end

end Reader

end PlZero
