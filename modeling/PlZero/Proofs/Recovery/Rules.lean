/-
  PlZero/Proofs/Recovery/Rules.lean
  =================================
  **Readers in lockstep.**  Two states are twins if their streams are, if their tables have one
  frame, and if as many parentheses are open.  There is one rule for each way to build a
  reader: what is built of readers that run in lockstep runs in lockstep.  Their results need
  not be equal; for trees it is the shape that is (`SameShape`).

  Declaring a name depends on what the tokens carry, and may be refused in one run and not in
  the other.  But it changes nothing that another reader looks at (`ReaderState.Aside`), so
  the two runs need not do it alike (`lockstep_of_aside`).
-/
import PlZero.Proofs.Reading.Ends
import PlZero.Proofs.Recovery.Lockstep
import PlZero.Proofs.Recovery.Shape

namespace PlZero

/-- Two results of one shape. -/
def SameShape {α β : Type} (shape : α → β) (a a' : α) : Prop := shape a' = shape a

/-- States with streams that are twins and with tables of one frame. -/
structure ReaderState.Twin (w : Counterparts) (s s' : ReaderState) : Prop where
  stream : s.stream.Twin w s'.stream
  frame : s'.symbols.frame = s.symbols.frame
  nesting : s'.nesting = s.nesting

/-- One state comes of another by events and entries that hang on what tokens carry. -/
structure ReaderState.Aside (s u : ReaderState) : Prop where
  stream : ∃ free, u.stream = { s.stream with journal := free ++ s.stream.journal } ∧
    ∀ e ∈ free, e.ofKinds = false
  frame : u.symbols.frame = s.symbols.frame
  nesting : u.nesting = s.nesting

namespace Reader

open ReaderState

variable {α β γ : Type} {w : Counterparts} {Q : α → α → Prop} {P : β → β → Prop}
  {m m' : Reader α} {s : ReaderState}

/-! ### The stream -/

theorem onStream_lockstep {op op' : StreamM α} (h : Lockstep (Stream.Twin w) Q op op') :
    Lockstep (Twin w) Q (onStream op) (onStream op') := by
  intro s s' a u a' u' hs hm hm'
  unfold onStream at hm hm'
  cases hop : op s.stream with
  | error e t =>
    rw [hop] at hm
    cases hm
  | ok b t =>
    rw [hop] at hm
    cases hm
    cases hop' : op' s'.stream with
    | error e t' =>
      rw [hop'] at hm'
      cases hm'
    | ok b' t' =>
      rw [hop'] at hm'
      cases hm'
      obtain ⟨ha, ht⟩ := h s.stream s'.stream a t a' t' hs.stream hop hop'
      exact ⟨ha, ht, hs.frame, hs.nesting⟩

theorem name_lockstep : Lockstep (Twin w) (fun _ _ => True) name name :=
  (onStream_lockstep Stream.name_lockstep).bind fun _ _ _ => .pure trivial

theorem number_lockstep : Lockstep (Twin w) (fun _ _ => True) number number :=
  (onStream_lockstep Stream.number_lockstep).bind fun _ _ _ => .pure trivial

theorem expect_lockstep {k : Kind} : Lockstep (Twin w) Eq (expect k) (expect k) :=
  onStream_lockstep Stream.expect_lockstep

theorem demand_lockstep {k : Kind} {follow : KindSet} :
    Lockstep (Twin w) Eq (demand k follow) (demand k follow) :=
  (onStream_lockstep Stream.demand_lockstep).bind fun _ _ _ => .pure rfl

theorem skipTo_lockstep {find : KindSet} : Lockstep (Twin w) Eq (skipTo find) (skipTo find) :=
  onStream_lockstep Stream.skipTo_lockstep

theorem report_lockstep {p : Problem} {l l' : Location}
    (hp : ∀ n, Problem.Twin w.scans w.scans' n p p)
    (hl : Scan.SamePlace w.scans w.scans' l l') :
    Lockstep (Twin w) Eq (report p l) (report p l') := by
  apply Lockstep.modify
  intro s s' hs
  obtain ⟨n, hstream⟩ := hs.stream
  exact ⟨⟨n, hstream.report (hp n) hl⟩, hs.frame, hs.nesting⟩

theorem reportUnless_lockstep {holds holds' : Prop} [Decidable holds] [Decidable holds']
    (hiff : holds' ↔ holds) {p : Problem} {l l' : Location}
    (hp : ∀ n, Problem.Twin w.scans w.scans' n p p)
    (hl : Scan.SamePlace w.scans w.scans' l l') :
    Lockstep (Twin w) Eq (reportUnless holds p l) (reportUnless holds' p l') := by
  unfold reportUnless
  by_cases h : holds
  · rw [if_pos h, if_pos (hiff.mpr h)]
    exact .pure rfl
  · rw [if_neg h, if_neg (mt hiff.mp h)]
    exact report_lockstep hp hl

theorem tooDeep_lockstep : Lockstep (Twin w) Q tooDeep m' := by
  apply Lockstep.never
  intro s a u h
  cases h

theorem unreachable_lockstep {r : Rule} : Lockstep (Twin w) Q (unreachable r) m' := by
  apply Lockstep.never
  intro s a u h
  cases h

/-- Remarks that a scope is entered or left. -/
theorem note_lockstep {n n' : Note}
    (h : ∀ i, Event.Twin w.scans w.scans' i (.note n) (.note n')) :
    Lockstep (Twin w) Eq (note n) (note n') := by
  apply Lockstep.modify
  intro s s' hs
  obtain ⟨i, hstream⟩ := hs.stream
  exact ⟨⟨i, hstream.event (h i) rfl⟩, hs.frame, hs.nesting⟩

/-! ### Looking -/

theorem reads_lockstep {look look' : ReaderState → α}
    (h : ∀ s s', Twin w s s' → Q (look s) (look' s')) :
    Lockstep (Twin w) Q (reads look) (reads look') :=
  .look look look' (fun _ => rfl) (fun _ => rfl) h

theorem head_lockstep : Lockstep (Twin w) (fun t t' => t'.kind = t.kind) head head :=
  reads_lockstep fun _ _ hs => hs.stream.head_kind

theorem location_lockstep :
    Lockstep (Twin w) (Scan.SamePlace w.scans w.scans') location location := by
  apply reads_lockstep
  intro s s' hs
  obtain ⟨n, hstream⟩ := hs.stream
  exact hstream.place

theorem headIs_lockstep {k : Kind} : Lockstep (Twin w) Eq (headIs k) (headIs k) :=
  reads_lockstep fun _ _ hs => (hs.stream.headIs_eq k).symm

theorem headIn_lockstep {kinds : KindSet} : Lockstep (Twin w) Eq (headIn kinds) (headIn kinds) :=
  reads_lockstep fun _ _ hs => (hs.stream.headIn_eq kinds).symm

theorem atLimit_lockstep : Lockstep (Twin w) Eq atLimit atLimit :=
  reads_lockstep fun _ _ hs => by rw [hs.nesting]

theorem currentScope_lockstep : Lockstep (Twin w) Eq currentScope currentScope :=
  reads_lockstep fun _ _ hs => (SymbolTable.current_of_frame hs.frame).symm

theorem symbols_lockstep :
    Lockstep (Twin w) (SameShape SymbolTable.frame) (reads ReaderState.symbols)
      (reads ReaderState.symbols) :=
  reads_lockstep fun _ _ hs => hs.frame

/-! ### Brackets and loops -/

theorem deeper_lockstep (hm : Lockstep (Twin w) Q m m') :
    Lockstep (Twin w) Q (deeper m) (deeper m') := by
  apply Lockstep.bind (Q := Eq)
  · apply Lockstep.modify
    intro s s' hs
    exact ⟨hs.stream, hs.frame, congrArg (· + 1) hs.nesting⟩
  · intro _ _ _
    apply hm.bind
    intro a a' ha
    apply Lockstep.bind (Q := Eq)
    · apply Lockstep.modify
      intro s s' hs
      exact ⟨hs.stream, hs.frame, congrArg (· - 1) hs.nesting⟩
    · exact fun _ _ _ => .pure ha

theorem attempt_lockstep {r : Rule} {recover : KindSet} {placeholder placeholder' : Location → α}
    {body body' : Location → Reader α} (hplaceholder : ∀ l l', Q (placeholder l) (placeholder' l'))
    (hbody : ∀ l l', Scan.SamePlace w.scans w.scans' l l' →
      Lockstep (Twin w) Q (body l) (body' l')) :
    Lockstep (Twin w) Q (attempt r recover placeholder body)
      (attempt r recover placeholder' body') := by
  apply location_lockstep.bind
  intro l l' hl
  apply (onStream_lockstep Stream.beginRule_lockstep).bind
  rintro begun _ rfl
  split
  · apply (hbody l l' hl).bind
    intro a a' ha
    exact (onStream_lockstep Stream.endRule_lockstep).bind fun _ _ _ => .pure ha
  · exact .pure (hplaceholder l l')

theorem certainly_lockstep {r : Rule} {recover : KindSet} {body body' : Location → Reader α}
    (hbody : ∀ l l', Scan.SamePlace w.scans w.scans' l l' →
      Lockstep (Twin w) Q (body l) (body' l')) :
    Lockstep (Twin w) Q (certainly r recover body) (certainly r recover body') := by
  apply (onStream_lockstep Stream.beginCertain_lockstep).bind
  intro _ _ _
  apply location_lockstep.bind
  intro l l' hl
  apply (hbody l l' hl).bind
  intro a a' ha
  exact (onStream_lockstep Stream.endRule_lockstep).bind fun _ _ _ => .pure ha

/-- Scans bound the number of turns, and there are as many of them in either run. -/
theorem repeatWhile_lockstep {kinds : KindSet} {turn turn' : α → Reader α}
    (hturn : ∀ a a', Q a a' → Lockstep (Twin w) Q (turn a) (turn' a')) {scans scans' : List Scan}
    (hlength : scans'.length = scans.length) {a a' : α} (ha : Q a a') :
    Lockstep (Twin w) Q (repeatWhile kinds turn scans a) (repeatWhile kinds turn' scans' a') := by
  induction scans generalizing scans' a a' with
  | nil =>
    obtain rfl := List.length_eq_zero_iff.mp hlength
    apply headIn_lockstep.bind
    rintro more _ rfl
    split
    · exact hturn a a' ha
    · exact .pure ha
  | cons x scans ih =>
    cases scans' with
    | nil => cases hlength
    | cons x' scans' =>
      apply headIn_lockstep.bind
      rintro more _ rfl
      split
      · exact (hturn a a' ha).bind fun b b' hb => ih (Nat.succ.inj hlength) hb
      · exact .pure ha

theorem whileIn_lockstep {kinds : KindSet} {turn turn' : α → Reader α}
    (hturn : ∀ a a', Q a a' → Lockstep (Twin w) Q (turn a) (turn' a')) {a a' : α} (ha : Q a a') :
    Lockstep (Twin w) Q (whileIn kinds turn a) (whileIn kinds turn' a') := by
  apply Lockstep.bind (Q := SameShape List.length)
  · exact reads_lockstep fun _ _ hs => hs.stream.rest_length
  · exact fun scans scans' hlength => repeatWhile_lockstep hturn hlength ha

theorem separated_lockstep {shape : α → β} {sign : Kind} {pass pass' : Reader Unit}
    (hpass : Lockstep (Twin w) Eq pass pass') (hpart : Lockstep (Twin w) (SameShape shape) m m') :
    Lockstep (Twin w) (SameShape (List.map shape)) (separated sign pass m)
      (separated sign pass' m') := by
  apply hpart.bind
  intro first first' hfirst
  apply Lockstep.bind (Q := SameShape (List.map shape))
  · apply whileIn_lockstep
    · intro found found' hfound
      apply hpass.bind
      intro _ _ _
      apply hpart.bind
      intro a a' ha
      exact .pure (congrArg₂ List.cons ha hfound)
    · exact congrArg (fun a => [a]) hfirst
  · intro found found' hfound
    apply Lockstep.pure
    have hmaps : found'.map shape = found.map shape := hfound
    simp only [SameShape, List.map_reverse, hmaps]

/-! ### Scopes -/

theorem setSymbols_lockstep {t t' : SymbolTable} (h : t'.frame = t.frame) :
    Lockstep (Twin w) Eq (modify fun s => { s with symbols := t } : Reader Unit)
      (modify fun s => { s with symbols := t' }) := by
  apply Lockstep.modify
  intro s s' hs
  exact ⟨hs.stream, h, hs.nesting⟩

theorem enterScope_lockstep {owner owner' : Nat} :
    Lockstep (Twin w) Eq (enterScope owner) (enterScope owner') := by
  apply symbols_lockstep.bind
  intro t t' ht
  have hindex : (t'.enter owner').1 = (t.enter owner).1 := SymbolTable.enter_index ht owner owner'
  apply (setSymbols_lockstep (SymbolTable.frame_enter ht owner owner')).bind
  intro _ _ _
  apply Lockstep.bind (Q := Eq)
  · apply note_lockstep
    intro i
    rw [hindex]
    exact .scopeEntered _ _ _
  · exact fun _ _ _ => .pure hindex.symm

theorem leaveScope_lockstep : Lockstep (Twin w) Eq leaveScope leaveScope := by
  apply symbols_lockstep.bind
  intro t t' ht
  cases hu : t.leave with
  | none =>
    apply Lockstep.never
    intro s b v h
    cases h
  | some u =>
    cases hu' : t'.leave with
    | none =>
      intro s s' b v b' v' _ _ h'
      cases h'
    | some u' =>
      apply (setSymbols_lockstep (SymbolTable.frame_leave ht hu hu')).bind
      intro _ _ _
      apply note_lockstep
      intro i
      rw [SymbolTable.current_of_frame ht]
      exact .scopeLeft _

/-- The entries that own the scopes may have other numbers. -/
theorem inScope_lockstep {owner owner' : Nat} {body body' : Nat → Reader α}
    (hbody : ∀ scope, Lockstep (Twin w) Q (body scope) (body' scope)) :
    Lockstep (Twin w) Q (inScope owner body) (inScope owner' body') := by
  apply enterScope_lockstep.bind
  rintro scope _ rfl
  apply (hbody scope).bind
  intro a a' ha
  exact leaveScope_lockstep.bind fun _ _ _ => .pure ha

/-! ### What hangs on tokens -/

/-- A reader that leaves a state aside, if it returns. -/
def StaysAside (m : Reader α) : Prop := ∀ s, Ends (fun _ _ => True) m (fun _ u => s.Aside u) s

/-- Whatever two runs do that leave their states aside, the states stay twins. -/
theorem lockstep_of_aside (hm : StaysAside m) (hm' : StaysAside m') :
    Lockstep (Twin w) (fun _ _ => True) m m' := by
  intro s s' a u a' u' hs h h'
  refine ⟨trivial, ?_⟩
  have hu : s.Aside u := (hm s).ok h
  have hu' : s'.Aside u' := (hm' s').ok h'
  obtain ⟨free, hstream, hfree⟩ := hu.stream
  obtain ⟨free', hstream', hfree'⟩ := hu'.stream
  obtain ⟨n, htwin⟩ := hs.stream
  refine ⟨⟨n, ?_⟩, ?_, ?_⟩
  · rw [hstream, hstream']
    have hjournal := (htwin.journal.append_left hfree).append_right hfree'
    exact ⟨htwin.first, htwin.second, htwin.rules, hjournal⟩
  · rw [hu'.frame, hs.frame, hu.frame]
  · rw [hu'.nesting, hs.nesting, hu.nesting]

theorem aside_refl (s : ReaderState) : s.Aside s :=
  ⟨⟨[], rfl, List.forall_mem_nil _⟩, rfl, rfl⟩

theorem aside_symbols {t : SymbolTable} (h : t.frame = s.symbols.frame) :
    s.Aside { s with symbols := t } :=
  ⟨⟨[], rfl, List.forall_mem_nil _⟩, h, rfl⟩

theorem aside_event {e : Event} (h : e.ofKinds = false) :
    s.Aside (s.withStream { s.stream with journal := e :: s.stream.journal }) :=
  ⟨⟨[e], rfl, List.forall_mem_singleton.mpr h⟩, rfl, rfl⟩

/-- A declaration leaves a state aside, be it refused or not. -/
theorem declared_aside {what : Declared} {x : String} {l : Location}
    {outcome : Option (Entry × SymbolTable)}
    (h : ∀ e t, outcome = some (e, t) → t.frame = s.symbols.frame) :
    Ends (fun _ _ => True) (declared what x l outcome) (fun _ u => s.Aside u) s := by
  cases outcome with
  | none => exact .bind (.report (.pure (aside_event rfl)))
  | some added =>
    obtain ⟨e, t⟩ := added
    exact .bind (.modify (.pure (aside_symbols (h e t rfl))))

/-- Remarks that say how many diagnostics there are, and the like. -/
theorem note_aside {n : Note} (h : Event.ofKinds (.note n) = false) : StaysAside (note n) :=
  fun _ => .modify (aside_event h)

end Reader

end PlZero
