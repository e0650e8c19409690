/-
  PlZero/Proofs/Reading/Ends.lean
  ===============================
  **How readers end.**  `Ends E m Q s` says that the reader `m`, started in the state
  `s`, ends with a result and a state that satisfy `Q`, or aborts in a way that `E`
  admits.  There is one rule for each way to build a reader.  With an `E` that admits
  nothing the rules prove that a reader returns; with one that admits everything they
  only say what holds if it does.

  The rules for the operations on the stream are stated for states without a digit run
  that is too long to read (`Stream.Clear`), and describe each operation by the relations
  `Demanded`, `Begun` and `Ended`.
-/
import PlZero.Grammar.Reading
import PlZero.Proofs.Stream.Operations

namespace PlZero

/-- A stream whose run ends because the program nests too deeply. -/
def Stream.tooDeep (s : Stream) : Stream :=
  { s with journal := fatally .programTooDeep s.head.location s.journal }

/-- A state with another stream. -/
def ReaderState.withStream (s : ReaderState) (u : Stream) : ReaderState := { s with stream := u }

/-- A state in which another level of nesting is open. -/
def ReaderState.deepened (s : ReaderState) : ReaderState := { s with nesting := s.nesting + 1 }

namespace Reader

/-- A run may end because the program nests too deeply. -/
def AdmitsTooDeep (E : Abort → Stream → Prop) : Prop := ∀ u : Stream, E .tooDeep u.tooDeep

/-- A reader ends with a result and a state that satisfy `Q`, or as `E` admits. -/
def Ends {α : Type} (E : Abort → Stream → Prop) (m : Reader α) (Q : α → ReaderState → Prop)
    (s : ReaderState) : Prop :=
  match m s with
  | .ok a t => Q a t
  | .error e t => E e t.stream

section

variable {α β : Type} {E E' : Abort → Stream → Prop} {Q Q' : α → ReaderState → Prop}
  {R : β → ReaderState → Prop} {m : Reader α} {f : α → Reader β} {s : ReaderState}

/-! ### Logic -/

theorem Ends.of_ok {a : α} {t : ReaderState} (h : m s = .ok a t) (hQ : Q a t) :
    Ends E m Q s := by
  unfold Ends
  rw [h]
  exact hQ

theorem Ends.ok {a : α} {t : ReaderState} (h : Ends E m Q s) (hm : m s = .ok a t) : Q a t := by
  unfold Ends at h
  rw [hm] at h
  exact h

theorem Ends.cases (h : Ends E m Q s) :
    (∃ a t, m s = .ok a t ∧ Q a t) ∨ ∃ e t, m s = .error e t ∧ E e t.stream := by
  unfold Ends at h
  cases hm : m s with
  | ok a t => rw [hm] at h; exact .inl ⟨a, t, rfl, h⟩
  | error e t => rw [hm] at h; exact .inr ⟨e, t, rfl, h⟩

theorem Ends.mono (h : Ends E m Q s) (hE : ∀ e u, E e u → E' e u) (hQ : ∀ a t, Q a t → Q' a t) :
    Ends E' m Q' s := by
  unfold Ends at h ⊢
  cases hm : m s with
  | ok a t => rw [hm] at h; exact hQ a t h
  | error e t => rw [hm] at h; exact hE e t.stream h

theorem Ends.post (h : Ends E m Q s) (hQ : ∀ a t, Q a t → Q' a t) : Ends E m Q' s :=
  h.mono (fun _ _ => id) hQ

theorem Ends.and (h : Ends E m Q s) (h' : Ends E' m Q' s) :
    Ends (fun e u => E e u ∧ E' e u) m (fun a t => Q a t ∧ Q' a t) s := by
  unfold Ends at h h' ⊢
  cases hm : m s with
  | ok a t => rw [hm] at h h'; exact ⟨h, h'⟩
  | error e t => rw [hm] at h h'; exact ⟨h, h'⟩

theorem Ends.pure {a : α} (h : Q a s) : Ends E (pure a) Q s := h

theorem Ends.bind (h : Ends E m (fun a t => Ends E (f a) R t) s) : Ends E (m >>= f) R s := by
  unfold Ends at h ⊢
  cases hm : m s with
  | ok a t =>
    have hrun : (m >>= f) s = f a t := by simp only [Bind.bind, EStateM.bind, hm]
    rw [hm] at h
    rw [hrun]
    exact h
  | error e t =>
    have hrun : (m >>= f) s = .error e t := by simp only [Bind.bind, EStateM.bind, hm]
    rw [hm] at h
    rw [hrun]
    exact h

/-! ### Looking and setting -/

theorem Ends.reads {look : ReaderState → α} (h : Q (look s) s) : Ends E (reads look) Q s := h

theorem Ends.modify {g : ReaderState → ReaderState} {P : Unit → ReaderState → Prop}
    (h : P () (g s)) : Ends E (modify g) P s := h

theorem Ends.tooDeep (h : AdmitsTooDeep E) : Ends E (tooDeep : Reader α) Q s := h s.stream

theorem Ends.deeper (h : Ends E m (fun a t => Q a { t with nesting := t.nesting - 1 })
    s.deepened) : Ends E (deeper m) Q s :=
  .bind (.modify (.bind (h.post fun _ _ hQ => .bind (.modify (.pure hQ)))))

/-! ### Scopes -/

theorem Ends.enterScope {owner : Nat} {P : Nat → ReaderState → Prop}
    (h : ∀ n, P (s.symbols.enter owner).1
      ⟨s.stream.noted n, (s.symbols.enter owner).2, s.nesting⟩) :
    Ends E (enterScope owner) P s :=
  .bind (.reads (.bind (.modify (.bind (.modify (.pure (h _)))))))

theorem Ends.leaveScope {outer : SymbolTable} {P : Unit → ReaderState → Prop}
    (hleave : s.symbols.leave = some outer)
    (h : ∀ n, P () ⟨s.stream.noted n, outer, s.nesting⟩) : Ends E leaveScope P s := by
  refine .bind (.reads ?_)
  rw [hleave]
  exact .bind (.modify (.modify (h _)))

/-! ### The stream -/

theorem Ends.onStream {op : StreamM α} {a : α} {u : Stream} (h : op s.stream = .ok a u)
    (hQ : Q a (s.withStream u)) : Ends E (onStream op) Q s := by
  refine .of_ok (t := s.withStream u) ?_ hQ
  unfold Reader.onStream
  rw [h]
  rfl

theorem Ends.name {P : String → ReaderState → Prop} (hk : s.stream.head.kind = .identifier)
    (h : P s.stream.head.payload.name s) : Ends E name P s :=
  .bind (.onStream (Stream.name_of_identifier hk) (.pure h))

theorem Ends.number {P : Int → ReaderState → Prop} (hk : s.stream.head.kind = .number)
    (h : P s.stream.head.payload.value s) : Ends E number P s :=
  .bind (.onStream (Stream.number_of_number hk) (.pure h))

theorem Ends.report {p : Problem} {l : Location} {P : Unit → ReaderState → Prop}
    (h : P () (s.withStream (s.stream.report p l))) : Ends E (report p l) P s := h

variable (hs : s.stream.Clear) {P : Unit → ReaderState → Prop}
include hs

theorem Ends.expect {k : Kind} (hk : s.stream.head.kind = k)
    (h : P () (s.withStream s.stream.consumed)) : Ends E (expect k) P s :=
  .onStream (Stream.expect_of_kind hs hk) h

theorem Ends.demand {k : Kind} {follow : KindSet}
    (h : ∀ u, Stream.Demanded k s.stream u → P () (s.withStream u)) :
    Ends E (demand k follow) P s := by
  obtain ⟨b, u, hu, hdemanded⟩ := Stream.demand_demanded k follow hs
  exact .bind (.onStream hu (.pure (h u hdemanded)))

theorem Ends.skipTo {find : KindSet}
    (h : ∀ u, s.stream.Moved u → (u.head.kind ∈ find ∨ u.head.kind = .endOfFile) →
      P () (s.withStream u)) : Ends E (skipTo find) P s := by
  obtain ⟨u, hu, hmoved, hstop⟩ := Stream.skipTo_moved find hs
  exact .onStream hu (h u hmoved hstop)

theorem Ends.skipParenthesised (h : ∀ u, s.stream.Moved u → P () (s.withStream u)) :
    Ends E (Reader.onStream Stream.skipParenthesised) P s := by
  obtain ⟨u, hu, hmoved⟩ := Stream.skipParenthesised_moved hs
  exact .onStream hu (h u hmoved)

/-! ### Rule brackets -/

omit hs in
/-- Leaving a rule, from a state in which it is the innermost. -/
theorem Ends.endRule {rule : String} {recover : KindSet}
    (h : s.stream.Clear ∧ s.stream.rules.head? = some rule ∧
      ∀ u, Stream.Ended rule recover s.stream u → P () (s.withStream u)) :
    Ends E (Reader.onStream (Stream.endRule rule recover)) P s := by
  obtain ⟨hclear, hrule, hP⟩ := h
  obtain ⟨u, hu, hended⟩ := Stream.endRule_ended recover hclear hrule
  exact .onStream hu (hP u hended)

theorem Ends.attempt {r : Rule} {recover : KindSet} {placeholder : Location → α}
    {body : Location → Reader α}
    (hbody : ∀ u, Stream.Begun r.title r.starts recover s.stream true u →
      Ends E (body s.stream.head.location) (fun a t => t.stream.Clear ∧
        t.stream.rules.head? = some r.title ∧
        ∀ v, Stream.Ended r.title recover t.stream v → Q a (t.withStream v))
        (s.withStream u))
    (hlost : ∀ u, Stream.Begun r.title r.starts recover s.stream false u →
      Q (placeholder s.stream.head.location) (s.withStream u)) :
    Ends E (attempt r recover placeholder body) Q s := by
  obtain ⟨b, u, hu, hbegun⟩ := Stream.beginRule_begun r.title r.starts recover hs
  refine .bind (.reads (.bind (.onStream hu ?_)))
  cases b with
  | true =>
    rw [if_pos rfl]
    exact .bind ((hbody u hbegun).post fun a t ht => .bind (.endRule ht))
  | false =>
    rw [if_neg Bool.false_ne_true]
    exact .pure (hlost u hbegun)

omit hs in
theorem Ends.certainly {r : Rule} {recover : KindSet} {body : Location → Reader α}
    (hk : s.stream.head.kind ∈ r.starts)
    (hbody : Ends E (body s.stream.head.location) (fun a t => t.stream.Clear ∧
      t.stream.rules.head? = some r.title ∧
      ∀ v, Stream.Ended r.title recover t.stream v → Q a (t.withStream v))
      (s.withStream (s.stream.opened r.title))) :
    Ends E (certainly r recover body) Q s :=
  .bind (.onStream (Stream.beginCertain_of_start hk) (.bind (.reads (.bind
    (hbody.post fun _ _ ht => .bind (.endRule ht))))))

end

/-! ### Loops -/

section

variable {α : Type} {E : Abort → Stream → Prop} {kinds : KindSet} {turn : α → Reader α}

/-- What every turn of a loop keeps holds after it. -/
theorem Ends.whileIn {I : α → ReaderState → Prop} {a : α} {s : ReaderState} (hstart : I a s)
    (hturn : ∀ b t, I b t → t.stream.head.kind ∈ kinds → Ends E (turn b) I t) :
    Ends E (Reader.whileIn kinds turn a) I s := by
  refine .bind (.reads ?_)
  generalize s.stream.rest = scans
  induction scans generalizing a s with
  | nil =>
    refine .bind (.reads ?_)
    cases hin : s.stream.headIn kinds with
    | false => exact .pure hstart
    | true => exact hturn a s hstart hin
  | cons _ scans ih =>
    refine .bind (.reads ?_)
    cases hin : s.stream.headIn kinds with
    | false => exact .pure hstart
    | true => exact .bind ((hturn a s hstart hin).post fun b t ht => ih ht)

end

end Reader

end PlZero
