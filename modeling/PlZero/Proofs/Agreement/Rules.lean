/-
  PlZero/Proofs/Agreement/Rules.lean
  ==================================
  **Two runs of a reader.**  Two states are alike if their streams are, one of them scanned on
  demand and the other before, and if they agree in everything else.  There is one rule for
  each way to build a reader: what is built of readers that agree agrees.  A reader that
  reports at a place agrees if the place was passed, which is why a rule that remembers the
  place of a token adds it to the places `L`.
-/
import PlZero.Grammar.Reading
import PlZero.Proofs.Stream.Alike

namespace PlZero

/-- States with streams that are alike, and otherwise the same. -/
structure ReaderState.Alike (L : Location → Prop) (s s' : ReaderState) : Prop where
  stream : s.stream.Alike L s'.stream
  symbols : s'.symbols = s.symbols
  nesting : s'.nesting = s.nesting

namespace Reader

open ReaderState

variable {α β : Type} {L : Location → Prop} {m : Reader α} {f : α → Reader β}

/-! ### The stream -/

theorem onStream_agrees {op : StreamM α} (h : Agrees (Stream.Alike L) op) :
    Agrees (Alike L) (onStream op) := by
  intro s s' a u a' u' hs hm hm'
  unfold onStream at hm hm'
  cases hop : op s.stream with
  | error e t =>
    rw [hop] at hm
    cases hm
  | ok b t =>
    rw [hop] at hm
    cases hm
    cases hop' : op s'.stream with
    | error e t' =>
      rw [hop'] at hm'
      cases hm'
    | ok b' t' =>
      rw [hop'] at hm'
      cases hm'
      obtain ⟨rfl, ht⟩ := h s.stream s'.stream a t a' t' hs.stream hop hop'
      exact ⟨rfl, ht, hs.symbols, hs.nesting⟩

theorem name_agrees : Agrees (Alike L) name :=
  (onStream_agrees Stream.name_agrees).bind fun _ => .pure

theorem number_agrees : Agrees (Alike L) number :=
  (onStream_agrees Stream.number_agrees).bind fun _ => .pure

theorem expect_agrees {k : Kind} : Agrees (Alike L) (expect k) :=
  onStream_agrees Stream.expect_agrees

theorem demand_agrees {k : Kind} {follow : KindSet} : Agrees (Alike L) (demand k follow) :=
  (onStream_agrees Stream.demand_agrees).bind fun _ => .pure

theorem skipTo_agrees {find : KindSet} : Agrees (Alike L) (skipTo find) :=
  onStream_agrees Stream.skipTo_agrees

theorem report_agrees {p : Problem} {l : Location} (hl : L l) :
    Agrees (Alike L) (report p l) := by
  apply Agrees.modify
  intro s s' hs
  exact ⟨hs.stream.report p hl, hs.symbols, hs.nesting⟩

theorem reportUnless_agrees {holds : Prop} [Decidable holds] {p : Problem} {l : Location}
    (hl : L l) : Agrees (Alike L) (reportUnless holds p l) := by
  unfold reportUnless
  split
  · exact .pure
  · exact report_agrees hl

/-- Remarks for the log may differ. -/
theorem note_alike {n n' : Note} {s s' u u' : ReaderState} {a a' : Unit} (hs : Alike L s s')
    (h : note n s = .ok a u) (h' : note n' s' = .ok a' u') : Alike L u u' := by
  cases h
  cases h'
  exact ⟨hs.stream.event _ _ rfl rfl, hs.symbols, hs.nesting⟩

theorem note_agrees {n : Note} : Agrees (Alike L) (note n) :=
  fun _ _ _ _ _ _ hs h h' => ⟨rfl, note_alike hs h h'⟩

theorem tooDeep_agrees : Agrees (Alike L) (tooDeep : Reader α) := by
  apply Agrees.never
  intro s a u h
  cases h

theorem unreachable_agrees {r : Rule} : Agrees (Alike L) (unreachable r : Reader α) := by
  apply Agrees.never
  intro s a u h
  cases h

/-! ### Looking -/

/-- What is looked up is the same in states that are alike. -/
theorem look_agrees {look : ReaderState → α}
    (hsame : ∀ s s' : ReaderState, s'.stream.head = s.stream.head → s'.symbols = s.symbols →
      s'.nesting = s.nesting → look s' = look s)
    (hf : ∀ a, Agrees (Alike L) (f a)) : Agrees (Alike L) (reads look >>= f) := by
  apply Agrees.look look
  · intro s
    rfl
  · intro s s' hs
    rw [hsame s s' hs.stream.head hs.symbols hs.nesting]
  · exact hf

theorem head_agrees {f : Token → Reader β} (hf : ∀ t, Agrees (Alike L) (f t)) :
    Agrees (Alike L) (head >>= f) :=
  look_agrees (fun _ _ hhead _ _ => hhead) hf

theorem headIs_agrees {k : Kind} {f : Bool → Reader β} (hf : ∀ b, Agrees (Alike L) (f b)) :
    Agrees (Alike L) (headIs k >>= f) :=
  look_agrees (fun _ _ hhead _ _ => Stream.headIs_congr hhead) hf

theorem headIn_agrees {kinds : KindSet} {f : Bool → Reader β}
    (hf : ∀ b, Agrees (Alike L) (f b)) : Agrees (Alike L) (headIn kinds >>= f) :=
  look_agrees (fun _ _ hhead _ _ => Stream.headIn_congr hhead) hf

theorem atLimit_agrees {f : Bool → Reader β} (hf : ∀ b, Agrees (Alike L) (f b)) :
    Agrees (Alike L) (atLimit >>= f) :=
  look_agrees (fun _ _ _ _ hnesting => by rw [hnesting]) hf

theorem symbols_agrees {f : SymbolTable → Reader β} (hf : ∀ t, Agrees (Alike L) (f t)) :
    Agrees (Alike L) (reads ReaderState.symbols >>= f) :=
  look_agrees (fun _ _ _ hsymbols _ => hsymbols) hf

theorem currentScope_agrees {f : Nat → Reader β} (hf : ∀ n, Agrees (Alike L) (f n)) :
    Agrees (Alike L) (currentScope >>= f) :=
  look_agrees (fun _ _ _ hsymbols _ => by rw [hsymbols]) hf

/-- What follows may report at the place of the head token. -/
theorem location_agrees {f : Location → Reader β}
    (hf : ∀ l, Agrees (Alike (Also L l)) (f l)) : Agrees (Alike L) (location >>= f) := by
  intro s s' b u b' u' hs h h'
  have hrun : f s.stream.head.location s = .ok b u := h
  have hrun' : f s'.stream.head.location s' = .ok b' u' := h'
  rw [hs.stream.head] at hrun'
  have hhead : Alike (Also L s.stream.head.location) s s' :=
    ⟨hs.stream.at_head, hs.symbols, hs.nesting⟩
  obtain ⟨rfl, hu⟩ := hf _ s s' b u b' u' hhead hrun hrun'
  exact ⟨rfl, hu.stream.mono fun _ => .inl, hu.symbols, hu.nesting⟩

/-! ### Brackets and loops -/

theorem deeper_agrees (hm : Agrees (Alike L) m) : Agrees (Alike L) (deeper m) := by
  apply Agrees.bind
  · apply Agrees.modify
    intro s s' hs
    exact ⟨hs.stream, hs.symbols, congrArg (· + 1) hs.nesting⟩
  · intro _
    apply hm.bind
    intro a
    apply Agrees.bind
    · apply Agrees.modify
      intro s s' hs
      exact ⟨hs.stream, hs.symbols, congrArg (· - 1) hs.nesting⟩
    · exact fun _ => .pure

theorem attempt_agrees {r : Rule} {recover : KindSet} {placeholder : Location → α}
    {body : Location → Reader α} (hbody : ∀ l, Agrees (Alike (Also L l)) (body l)) :
    Agrees (Alike L) (attempt r recover placeholder body) := by
  apply location_agrees
  intro l
  apply (onStream_agrees Stream.beginRule_agrees).bind
  intro begun
  split
  · apply (hbody l).bind
    intro a
    exact (onStream_agrees Stream.endRule_agrees).bind fun _ => .pure
  · exact .pure

theorem certainly_agrees {r : Rule} {recover : KindSet} {body : Location → Reader α}
    (hbody : ∀ l, Agrees (Alike (Also L l)) (body l)) :
    Agrees (Alike L) (certainly r recover body) := by
  apply (onStream_agrees Stream.beginCertain_agrees).bind
  intro _
  apply location_agrees
  intro l
  apply (hbody l).bind
  intro a
  exact (onStream_agrees Stream.endRule_agrees).bind fun _ => .pure

/-- The scans only say how many turns there may be. -/
theorem repeatWhile_length {kinds : KindSet} {turn : α → Reader α} {scans scans' : List Scan}
    (h : scans'.length = scans.length) (a : α) :
    repeatWhile kinds turn scans' a = repeatWhile kinds turn scans a := by
  induction scans generalizing scans' a with
  | nil => rw [List.length_eq_zero_iff.mp h]
  | cons x scans ih =>
    cases scans' with
    | nil => cases h
    | cons x' scans' =>
      unfold repeatWhile
      have hrest := ih (Nat.succ.inj h)
      simp only [hrest]

theorem repeatWhile_agrees {kinds : KindSet} {turn : α → Reader α}
    (hturn : ∀ a, Agrees (Alike L) (turn a)) (scans : List Scan) (a : α) :
    Agrees (Alike L) (repeatWhile kinds turn scans a) := by
  induction scans generalizing a with
  | nil =>
    apply headIn_agrees
    intro more
    split
    · exact hturn a
    · exact .pure
  | cons x scans ih =>
    apply headIn_agrees
    intro more
    split
    · exact (hturn a).bind ih
    · exact .pure

theorem whileIn_agrees {kinds : KindSet} {turn : α → Reader α}
    (hturn : ∀ a, Agrees (Alike L) (turn a)) (a : α) :
    Agrees (Alike L) (whileIn kinds turn a) := by
  apply Agrees.look fun s : ReaderState => s.stream.rest
  · intro s
    rfl
  · intro s s' hs
    apply repeatWhile_length
    rw [hs.stream.rest, List.length_map]
  · exact fun scans => repeatWhile_agrees hturn scans a

theorem separated_agrees {sign : Kind} {pass : Reader Unit} {part : Reader α}
    (hpass : Agrees (Alike L) pass) (hpart : Agrees (Alike L) part) :
    Agrees (Alike L) (separated sign pass part) := by
  apply hpart.bind
  intro first
  apply Agrees.bind
  · apply whileIn_agrees
    intro found
    exact hpass.bind fun _ => hpart.bind fun _ => .pure
  · exact fun _ => .pure

/-! ### Declarations and scopes -/

theorem setSymbols_agrees {t : SymbolTable} :
    Agrees (Alike L) (modify fun s => { s with symbols := t } : Reader Unit) := by
  apply Agrees.modify
  intro s s' hs
  exact ⟨hs.stream, rfl, hs.nesting⟩

theorem declared_agrees {what : Declared} {x : String} {l : Location}
    {outcome : Option (Entry × SymbolTable)} (hl : L l) :
    Agrees (Alike L) (declared what x l outcome) := by
  cases outcome with
  | none => exact (report_agrees hl).bind fun _ => .pure
  | some added => exact setSymbols_agrees.bind fun _ => .pure

theorem inScope_agrees {owner : Nat} {body : Nat → Reader α}
    (hbody : ∀ n, Agrees (Alike L) (body n)) : Agrees (Alike L) (inScope owner body) := by
  apply Agrees.bind
  · apply symbols_agrees
    intro t
    exact setSymbols_agrees.bind fun _ => note_agrees.bind fun _ => .pure
  · intro n
    apply (hbody n).bind
    intro a
    apply Agrees.bind
    · apply symbols_agrees
      intro t
      cases t.leave with
      | none => exact onStream_agrees Stream.fatal_agrees
      | some outer => exact setSymbols_agrees.bind fun _ => note_agrees
    · exact fun _ => .pure

end Reader

end PlZero
