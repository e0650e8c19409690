/-
  PlZero/Proofs/Reading/Steady.lean
  =================================
  **Readers that close what they open.**  `Steady m s` says that whenever the reader `m`
  returns from the state `s`, the token stream has taken a course (`Stream.Course`) and the
  nesting is what it was.  Nothing is asked of the tokens or of the symbol table, and nothing
  is said of a run that ends early.

  There is one rule for every way to build a reader.  The two brackets and the loops hand over
  what is known about the head token, since a reader that takes the head token whatever it is
  must not do so at the end of the input.
-/
import PlZero.Proofs.Reading.Ends
import PlZero.Proofs.Stream.Course

namespace PlZero

/-- What can happen to a state until all is closed that was opened on the way. -/
structure ReaderState.Course (s t : ReaderState) : Prop where
  stream : s.stream.Course t.stream
  nesting : t.nesting = s.nesting

namespace ReaderState.Course

variable {s t u : ReaderState}

theorem refl (s : ReaderState) : s.Course s := ⟨.refl _, rfl⟩

theorem trans (h : s.Course t) (h' : t.Course u) : s.Course u :=
  ⟨h.stream.trans h'.stream, h'.nesting.trans h.nesting⟩

end ReaderState.Course

namespace Reader

/-- A reader that returns has taken the state on a course. -/
def Steady {α : Type} (m : Reader α) (s : ReaderState) : Prop :=
  Ends (fun _ _ => True) m (fun _ t => s.Course t) s

variable {α β : Type} {m : Reader α} {f : α → Reader β} {s : ReaderState} {k : Kind}
  {recover : KindSet}

/-! ### Logic -/

theorem Steady.pure {a : α} : Steady (pure a) s := Ends.pure (.refl _)

theorem Steady.bind (hm : Steady m s) (hf : ∀ a t, Steady (f a) t) : Steady (m >>= f) s := by
  apply Ends.bind
  apply Ends.post hm
  intro a t ht
  apply (hf a t).post
  intro b u hu
  exact ht.trans hu

/-- A reader that ends the run is steady, since it never returns. -/
theorem Steady.of_error (h : ∃ e u, m s = .error e u) : Steady m s := by
  obtain ⟨e, u, hm⟩ := h
  unfold Steady Ends
  rw [hm]
  trivial

theorem Steady.tooDeep : Steady (tooDeep : Reader α) s := .of_error ⟨_, _, rfl⟩

theorem Steady.unreachable {r : Rule} : Steady (unreachable r : Reader α) s :=
  .of_error ⟨_, _, rfl⟩

theorem Steady.look {look : ReaderState → α} (h : Steady (f (look s)) s) :
    Steady (reads look >>= f) s :=
  Ends.bind (.reads h)

/-! ### The stream -/

theorem Ends.of_forall {Q : α → ReaderState → Prop} (h : ∀ a t, Q a t) :
    Ends (fun _ _ => True) m Q s := by
  unfold Ends
  cases m s with
  | ok a t => exact h a t
  | error e t => trivial

/-- What holds of every way in which an operation on the stream returns. -/
theorem Ends.of_returns {op : StreamM α} {Q : α → ReaderState → Prop}
    (h : ∀ a u, op s.stream = .ok a u → Q a (s.withStream u)) :
    Ends (fun _ _ => True) (Reader.onStream op) Q s := by
  unfold Ends Reader.onStream
  cases hop : op s.stream with
  | ok a u => exact h a u hop
  | error e u => trivial

theorem Steady.onStream {op : StreamM α} (h : ∀ a u, op s.stream = .ok a u → s.stream.Course u) :
    Steady (Reader.onStream op) s :=
  Ends.of_returns fun a u hu => ⟨h a u hu, rfl⟩

theorem Steady.name : Steady name s :=
  .bind (.onStream fun _ _ h => Stream.name_ok h ▸ .refl _) fun _ _ => .pure

theorem Steady.number : Steady number s :=
  .bind (.onStream fun _ _ h => Stream.number_ok h ▸ .refl _) fun _ _ => .pure

theorem Steady.expect (hk : k ≠ .endOfFile) : Steady (expect k) s :=
  .onStream fun _ _ h => Stream.expect_course hk h

theorem Steady.demand (hk : k ≠ .endOfFile) : Steady (demand k recover) s :=
  .bind (.onStream fun _ _ h => Stream.demand_course hk h) fun _ _ => .pure

theorem Steady.skipTo : Steady (skipTo recover) s := .onStream fun _ _ h => Stream.skipTo_course h

theorem Steady.skipParenthesised : Steady (Reader.onStream Stream.skipParenthesised) s :=
  .onStream fun _ _ h => Stream.skipParenthesised_course h

theorem Steady.report {p : Problem} {l : Location} : Steady (report p l) s :=
  Ends.report ⟨.report _ p l, rfl⟩

theorem Steady.reportUnless {holds : Prop} [Decidable holds] {p : Problem} {l : Location} :
    Steady (reportUnless holds p l) s := by
  unfold Reader.reportUnless
  split
  · exact .pure
  · exact .report

theorem Steady.note {n : Note} : Steady (note n) s := Ends.modify ⟨.noted _ n, rfl⟩

theorem Steady.deeper (h : ∀ t, Steady m t) : Steady (deeper m) s := by
  apply Ends.deeper
  apply (h s.deepened).post
  intro a t ht
  exact ⟨ht.stream, congrArg (· - 1) ht.nesting⟩

/-! ### Rule brackets -/

/-- Closing a rule that was opened, with a course between the two. -/
theorem Steady.closing {rule : String} {v : Stream} {t : ReaderState} (a : α)
    (hreach : s.stream.Course v) (hinside : (s.withStream (v.opened rule)).Course t) :
    Ends (fun _ _ => True) (do Reader.onStream (Stream.endRule rule recover); return a)
      (fun _ u => s.Course u) t := by
  apply Ends.bind
  apply Ends.of_returns
  intro _ u hu
  have hstream := hreach.trans ((hinside.stream.bracket rule).trans (Stream.endRule_course hu))
  exact .pure ⟨hstream, hinside.nesting⟩

theorem Steady.attempt {r : Rule} {placeholder : Location → α} {body : Location → Reader α}
    (hbody : ∀ l t, t.stream.head.kind ∈ r.starts → Steady (body l) t) :
    Steady (attempt r recover placeholder body) s := by
  apply Steady.look
  apply Ends.bind
  apply Ends.of_returns
  intro b u hu
  rcases Stream.beginRule_course hu with ⟨rfl, v, hreach, hstart, rfl⟩ | ⟨rfl, hreach⟩
  · apply Ends.bind
    apply (hbody _ (s.withStream (v.opened r.title)) hstart).post
    intro a t ht
    exact Steady.closing a hreach ht
  · exact .pure ⟨hreach, rfl⟩

theorem Steady.certainly {r : Rule} {body : Location → Reader α}
    (hbody : ∀ l t, t.stream.head.kind ∈ r.starts → Steady (body l) t) :
    Steady (certainly r recover body) s := by
  apply Ends.bind
  apply Ends.of_returns
  intro _ u hu
  obtain ⟨hstart, rfl⟩ := Stream.beginCertain_ok hu
  apply Ends.bind
  apply Ends.reads
  apply Ends.bind
  apply (hbody _ (s.withStream (s.stream.opened r.title)) hstart).post
  intro a t ht
  exact Steady.closing a (.refl _) ht

/-! ### Loops -/

theorem Steady.whileIn {kinds : KindSet} {turn : α → Reader α} {a : α}
    (hturn : ∀ a t, t.stream.head.kind ∈ kinds → Steady (turn a) t) :
    Steady (whileIn kinds turn a) s := by
  apply Ends.whileIn (I := fun _ t => s.Course t) (.refl s)
  intro b t ht hin
  apply (hturn b t hin).post
  intro c u hu
  exact ht.trans hu

theorem Steady.separated {sign : Kind} {pass : Reader Unit} {part : Reader α}
    (hpass : ∀ t, Steady pass t) (hpart : ∀ t, Steady part t) :
    Steady (separated sign pass part) s := by
  apply (hpart s).bind
  intro first t
  apply Steady.bind
  · apply Steady.whileIn
    intro found u _
    exact (hpass u).bind fun _ v => (hpart v).bind fun _ _ => .pure
  · intro found u
    exact .pure

/-! ### Declarations and scopes -/

theorem Steady.setSymbols {g : ReaderState → SymbolTable} :
    Steady (modify fun t => { t with symbols := g t }) s := Ends.modify ⟨.refl _, rfl⟩

theorem Steady.declared {what : Declared} {name : String} {l : Location}
    {outcome : Option (Entry × SymbolTable)} : Steady (declared what name l outcome) s := by
  cases outcome with
  | none => exact Steady.report.bind fun _ _ => .pure
  | some added => exact Steady.setSymbols.bind fun _ _ => .pure

theorem Steady.inScope {owner : Nat} {body : Nat → Reader α} (h : ∀ n t, Steady (body n) t) :
    Steady (inScope owner body) s := by
  apply Steady.bind (m := enterScope owner)
  · exact Ends.enterScope fun n => ⟨.noted _ n, rfl⟩
  · intro n t
    apply (h n t).bind
    intro a u
    apply Steady.bind (m := leaveScope)
    · apply Steady.look
      cases u.symbols.leave with
      | none => exact .of_error ⟨_, _, rfl⟩
      | some outer => exact Steady.setSymbols.bind fun _ _ => .note
    · intro _ v
      exact .pure

end Reader

end PlZero
