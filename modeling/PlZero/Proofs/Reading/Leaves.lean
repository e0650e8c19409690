/-
  PlZero/Proofs/Reading/Leaves.lean
  =================================
  **What a reader leaves in the symbol table.**  `Leaves t m Q` says that whenever the reader
  `m` returns from a state with the table `t`, its result and the table that it leaves satisfy
  `Q`.  Nothing is asked of the tokens, and nothing is said of a run that ends early: what is
  true of trees and tables on every input does not depend on either.

  Most operations do not touch the table at all (`Still`).  Those that do add an entry or open
  and close a scope.
-/
import PlZero.Proofs.Reading.Ends

namespace PlZero.Reader

/-- A reader that returns leaves a result and a table that satisfy `Q`. -/
def Leaves {α : Type} (t : SymbolTable) (m : Reader α) (Q : α → SymbolTable → Prop) : Prop :=
  ∀ s : ReaderState, s.symbols = t → Ends (fun _ _ => True) m (fun a u => Q a u.symbols) s

/-- A reader that leaves the table as it is. -/
def Still {α : Type} (m : Reader α) : Prop := ∀ t, Leaves t m fun _ u => u = t

variable {α β : Type} {t : SymbolTable} {m : Reader α} {f : α → Reader β}
  {Q Q' : α → SymbolTable → Prop} {R : β → SymbolTable → Prop}

/-! ### Logic -/

theorem Leaves.post (h : Leaves t m Q) (hQ : ∀ a u, Q a u → Q' a u) : Leaves t m Q' := by
  intro s hs
  exact (h s hs).post fun a u => hQ a u.symbols

theorem Leaves.pure {a : α} (h : Q a t) : Leaves t (pure a) Q := by
  intro s hs
  apply Ends.pure
  rw [hs]
  exact h

theorem Leaves.bind (hm : Leaves t m Q) (hf : ∀ a u, Q a u → Leaves u (f a) R) :
    Leaves t (m >>= f) R := by
  intro s hs
  apply Ends.bind
  exact (hm s hs).post fun a u ha => hf a u.symbols ha u rfl

/-- A reader that ends the run leaves nothing. -/
theorem Leaves.of_error (h : ∀ s : ReaderState, ∃ e u, m s = .error e u) : Leaves t m Q := by
  intro s _
  obtain ⟨e, u, hm⟩ := h s
  unfold Ends
  rw [hm]
  trivial

theorem Leaves.tooDeep : Leaves t (tooDeep : Reader α) Q :=
  .of_error fun _ => ⟨_, _, rfl⟩

theorem Leaves.unreachable {r : Rule} : Leaves t (unreachable r : Reader α) Q :=
  .of_error fun _ => ⟨_, _, rfl⟩

/-! ### Looking and reporting -/

theorem Leaves.look {look : ReaderState → α} (h : ∀ a, Leaves t (f a) R) :
    Leaves t (reads look >>= f) R := by
  intro s hs
  exact .bind (.reads (h _ s hs))

theorem Leaves.currentScope {f : Nat → Reader β} (h : Leaves t (f t.current) R) :
    Leaves t (currentScope >>= f) R := by
  intro s hs
  subst hs
  exact .bind (.reads (h s rfl))

theorem Leaves.symbols {f : SymbolTable → Reader β} (h : Leaves t (f t) R) :
    Leaves t (reads ReaderState.symbols >>= f) R := by
  intro s hs
  subst hs
  exact .bind (.reads (h s rfl))

theorem Leaves.still (hm : Still m) (hf : ∀ a, Leaves t (f a) R) : Leaves t (m >>= f) R := by
  apply (hm t).bind
  intro a u hu
  rw [hu]
  exact hf a

theorem Still.onStream {op : StreamM α} : Still (onStream op) := by
  intro t s hs
  unfold Ends Reader.onStream
  cases op s.stream with
  | ok a u => exact hs
  | error e u => trivial

theorem Still.then (hm : Still m) (hf : ∀ a, Still (f a)) : Still (m >>= f) :=
  fun t => .still hm fun a => hf a t

theorem Still.pure {a : α} : Still (pure a : Reader α) := fun _ => .pure rfl

theorem Still.name : Still name := Still.onStream.then fun _ => .pure

theorem Still.number : Still number := Still.onStream.then fun _ => .pure

theorem Still.expect {k : Kind} : Still (expect k) := .onStream

theorem Still.demand {k : Kind} {follow : KindSet} : Still (demand k follow) :=
  Still.onStream.then fun _ => .pure

theorem Still.skipTo {find : KindSet} : Still (skipTo find) := .onStream

theorem Still.report {p : Problem} {l : Location} : Still (report p l) := fun _ _ hs => hs

theorem Still.note {n : Note} : Still (note n) := fun _ _ hs => hs

theorem Still.reportUnless {holds : Prop} [Decidable holds] {p : Problem} {l : Location} :
    Still (reportUnless holds p l) := by
  unfold Reader.reportUnless
  split
  · exact .pure
  · exact .report

/-! ### Brackets and loops -/

theorem Leaves.deeper (h : Leaves t m Q) : Leaves t (deeper m) Q := by
  intro s hs
  exact .deeper (h s.deepened hs)

theorem Leaves.attempt {r : Rule} {recover : KindSet} {placeholder : Location → α}
    {body : Location → Reader α} (hlost : ∀ l, Q (placeholder l) t)
    (hbody : ∀ l, Leaves t (body l) Q) : Leaves t (attempt r recover placeholder body) Q := by
  apply Leaves.look
  intro l
  apply Leaves.still .onStream
  intro begun
  cases begun with
  | true =>
    apply (hbody l).bind
    intro a u ha
    exact .still .onStream fun _ => .pure ha
  | false => exact .pure (hlost l)

theorem Leaves.certainly {r : Rule} {recover : KindSet} {body : Location → Reader α}
    (hbody : ∀ l, Leaves t (body l) Q) : Leaves t (certainly r recover body) Q := by
  apply Leaves.still .onStream
  intro _
  apply Leaves.look
  intro l
  apply (hbody l).bind
  intro a u ha
  exact .still .onStream fun _ => .pure ha

theorem Leaves.whileIn {kinds : KindSet} {turn : α → Reader α} {a : α} (ha : Q a t)
    (hturn : ∀ a u, Q a u → Leaves u (turn a) Q) : Leaves t (whileIn kinds turn a) Q := by
  intro s hs
  apply Ends.whileIn (I := fun a u => Q a u.symbols)
  · rw [hs]
    exact ha
  · intro b u hb _
    exact hturn b u.symbols hb u rfl

/-- Parts that leave the table as it is, and all of which satisfy `P`. -/
theorem Leaves.separated {sign : Kind} {pass : Reader Unit} {part : Reader α} {P : α → Prop}
    (hpass : Still pass) (hpart : Leaves t part fun a u => P a ∧ u = t) :
    Leaves t (separated sign pass part) fun as u => (∀ a ∈ as, P a) ∧ u = t := by
  apply hpart.bind
  rintro first u ⟨hfirst, rfl⟩
  have hloop : Leaves u (Reader.whileIn {sign} (fun found => do
      pass
      return (← part) :: found) [first]) fun as v => (∀ a ∈ as, P a) ∧ v = u := by
    apply Leaves.whileIn
    · simpa using hfirst
    · rintro found v ⟨hfound, rfl⟩
      apply Leaves.still hpass
      intro _
      apply hpart.bind
      rintro a w ⟨ha, rfl⟩
      exact .pure (by simpa using ⟨ha, hfound⟩)
  apply hloop.bind
  rintro found v ⟨hfound, rfl⟩
  exact .pure (by simpa using hfound)

/-! ### Declarations and scopes -/

theorem Leaves.setSymbols {u : SymbolTable} {P : Unit → SymbolTable → Prop} (h : P () u) :
    Leaves t (modify fun s => { s with symbols := u }) P :=
  fun _ _ => h

theorem Leaves.declared {what : Declared} {name : String} {l : Location}
    {outcome : Option (Entry × SymbolTable)} {P : Option Entry → SymbolTable → Prop}
    (htaken : outcome = none → P none t) (hadded : ∀ e u, outcome = some (e, u) → P (some e) u) :
    Leaves t (declared what name l outcome) P := by
  cases outcome with
  | none => exact .still .report fun _ => .pure (htaken rfl)
  | some added =>
    obtain ⟨e, u⟩ := added
    have hset : Leaves t (modify fun s => { s with symbols := u }) fun _ v => v = u :=
      .setSymbols rfl
    apply hset.bind
    rintro _ v rfl
    exact .pure (hadded e v rfl)

/-- What is read in a scope of its own is read in the table with this scope; the scope is
    closed behind it. -/
theorem Leaves.inScope {owner : Nat} {body : Nat → Reader α}
    (h : Leaves (t.enter owner).2 (body (t.enter owner).1)
      fun a u => ∀ v, u.leave = some v → Q a v) : Leaves t (inScope owner body) Q := by
  have henter : Leaves t (enterScope owner)
      fun n u => n = (t.enter owner).1 ∧ u = (t.enter owner).2 := by
    intro s hs
    subst hs
    exact .enterScope fun _ => ⟨rfl, rfl⟩
  apply henter.bind
  rintro n u ⟨rfl, rfl⟩
  apply h.bind
  intro a u ha
  have hleave : Leaves u leaveScope fun _ v => u.leave = some v := by
    apply Leaves.symbols
    cases hu : u.leave with
    | none => exact .of_error fun _ => ⟨_, _, rfl⟩
    | some outer =>
      have hset : Leaves u (modify fun s => { s with symbols := outer }) fun _ v => v = outer :=
        .setSymbols rfl
      apply hset.bind
      rintro _ v rfl
      exact (Still.note v).post fun _ _ hv => congrArg some hv.symm
  apply hleave.bind
  intro _ v hv
  exact .pure (ha v hv)

end PlZero.Reader
