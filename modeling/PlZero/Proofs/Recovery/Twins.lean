/-
  PlZero/Proofs/Recovery/Twins.lean
  =================================
  **Two sequences of tokens of the same kinds.**  A position of a sequence is the number of
  tokens before it.  Two tokens at one position are twins: they are of one kind, while their
  names, values and places may differ.  Events are twins if they say the same of twin tokens,
  and journals are twins if their events are, one after the other and at the same positions,
  apart from those events that hang on what tokens carry: names that are declared already, and
  the faults that the lexer found.

  Streams are twins if they stand at one position of two sequences with journals that are
  twins.  They stay so when they move on.
-/
import PlZero.Proofs.Compilation.Stages
import PlZero.Proofs.Trace.Bracketed

namespace PlZero

/-! ### Positions -/

namespace Scan

/-- The kind of a token that was scanned. -/
def kind? (x : Scan) : Option Kind := x.token?.map Token.kind

/-- The faults of scans are those that a lexer finds in what tokens carry. -/
def Lexical (scans : List Scan) : Prop :=
  ∀ t p, Scan.token t (some p) ∈ scans → p = .integerTooLarge ∨ ∃ c, p = .illegalCharacter c

/-- Tokens of one kind at the position `n` of two sequences. -/
structure SamePosition (scans scans' : List Scan) (n : Nat) (t t' : Token) : Prop where
  first : scans[n]?.bind token? = some t
  second : scans'[n]?.bind token? = some t'
  kind : t'.kind = t.kind

/-- The places of two tokens at one position. -/
def SamePlace (scans scans' : List Scan) (l l' : Location) : Prop :=
  ∃ n t t', SamePosition scans scans' n t t' ∧ t.location = l ∧ t'.location = l'

end Scan

/-! ### Events -/

/-- Whether a problem lies in the kinds of tokens, and not in what they carry. -/
def Problem.ofKinds : Problem → Bool
  | .illegalCharacter _ => false
  | .integerTooLarge => false
  | .alreadyDeclared _ _ => false
  | _ => true

/-- Whether an event hangs on the kinds of tokens alone.  Remarks for the log are left out, but
    for those that a scope is entered or left. -/
def Event.ofKinds : Event → Bool
  | .report d => d.problem.ofKinds
  | .trace _ _ => true
  | .note (.scopeEntered _ _) => true
  | .note (.scopeLeft _) => true
  | .note _ => false

/-- Whether a token is passed in an event.  The end of the input stays the head token. -/
def Event.passes : Event → Bool
  | .trace _ a => a.token?.any fun t => t.kind != .endOfFile
  | _ => false

namespace Journal

/-- The number of tokens that were passed in the events of a journal. -/
def passed (j : Journal) : Nat := j.countP Event.passes

/-- The events of a journal that hang on kinds alone, latest first, each with the number of
    tokens that were passed before it. -/
def placed : Journal → List (Nat × Event)
  | [] => []
  | e :: j => if e.ofKinds then (passed j, e) :: placed j else placed j

end Journal

/-- Steps of the trace that are the same but for what a token carries.  The token that a step
    takes stands at the position `n`. -/
inductive Action.Twin (scans scans' : List Scan) (n : Nat) : Action → Action → Prop
  | opened (rule : String) : Action.Twin scans scans' n (.opened rule) (.opened rule)
  | closed (rule : String) : Action.Twin scans scans' n (.closed rule) (.closed rule)
  | abandoned (rule : String) : Action.Twin scans scans' n (.abandoned rule) (.abandoned rule)
  | matched {t t' : Token} (ht : Scan.SamePosition scans scans' n t t') :
      Action.Twin scans scans' n (.matched t) (.matched t')
  | skipped {t t' : Token} (ht : Scan.SamePosition scans scans' n t t') :
      Action.Twin scans scans' n (.skipped t) (.skipped t')
  | resynchronised (k : Kind) :
      Action.Twin scans scans' n (.resynchronised k) (.resynchronised k)

/-- Problems of syntax, of arity and of nesting that are the same but for what the token carries
    that they name, which stands at the position `n`. -/
inductive Problem.Twin (scans scans' : List Scan) (n : Nat) : Problem → Problem → Prop
  | expecting (k : Kind) : Problem.Twin scans scans' n (.expecting k) (.expecting k)
  | cannotStart {t t' : Token} (rule : String) (ht : Scan.SamePosition scans scans' n t t') :
      Problem.Twin scans scans' n (.cannotStart rule t) (.cannotStart rule t')
  | cannotFollow {t t' : Token} (rule : String) (ht : Scan.SamePosition scans scans' n t t') :
      Problem.Twin scans scans' n (.cannotFollow t rule) (.cannotFollow t' rule)
  | unequalAssignment : Problem.Twin scans scans' n .unequalAssignment .unequalAssignment
  | expressionTooDeep : Problem.Twin scans scans' n .expressionTooDeep .expressionTooDeep

/-- Events that are the same but for what tokens carry, and for their places, which are those
    of tokens at one position.  The head tokens stand at the position `n`. -/
inductive Event.Twin (scans scans' : List Scan) (n : Nat) : Event → Event → Prop
  | report {p p' : Problem} {l l' : Location} (severity : Severity)
      (hp : Problem.Twin scans scans' n p p') (hl : Scan.SamePlace scans scans' l l') :
      Event.Twin scans scans' n (.report ⟨severity, p, l⟩) (.report ⟨severity, p', l'⟩)
  | trace {a a' : Action} (depth : Nat) (ha : Action.Twin scans scans' n a a') :
      Event.Twin scans scans' n (.trace depth a) (.trace depth a')
  | scopeEntered (scope : Nat) (x x' : String) :
      Event.Twin scans scans' n (.note (.scopeEntered scope x)) (.note (.scopeEntered scope x'))
  | scopeLeft (scope : Nat) :
      Event.Twin scans scans' n (.note (.scopeLeft scope)) (.note (.scopeLeft scope))

/-- Twin events, with the same number of tokens passed before them. -/
def Event.TwinPlaced (scans scans' : List Scan) (x x' : Nat × Event) : Prop :=
  x'.1 = x.1 ∧ Event.Twin scans scans' x.1 x.2 x'.2

namespace Event

variable {scans scans' : List Scan} {n : Nat} {e e' : Event}

theorem Twin.ofKinds_eq (h : Twin scans scans' n e e') : e'.ofKinds = e.ofKinds := by
  cases h with
  | report severity hp hl =>
    cases hp with
    | _ => rfl
  | trace depth ha => rfl
  | scopeEntered scope x x' => rfl
  | scopeLeft scope => rfl

theorem Twin.passes_eq (h : Twin scans scans' n e e') : e'.passes = e.passes := by
  cases h with
  | report severity hp hl => rfl
  | trace depth ha =>
    cases ha with
    | matched ht => simp [passes, Action.token?, ht.kind]
    | skipped ht => simp [passes, Action.token?, ht.kind]
    | _ => rfl
  | scopeEntered scope x x' => rfl
  | scopeLeft scope => rfl

/-- No token is passed in an event that hangs on what tokens carry. -/
theorem passes_of_payload (h : e.ofKinds = false) : e.passes = false := by
  cases e with
  | report d => rfl
  | trace depth a => cases h
  | note n => rfl

end Event

/-! ### Journals -/

/-- Two sequences whose tokens are of the same kinds, one by one, up to the end of the input,
    with the journals before they are read. -/
structure Counterparts where
  scans : List Scan
  scans' : List Scan
  before : Journal
  before' : Journal
  kinds : scans'.map Scan.kind? = scans.map Scan.kind?
  ending : (scans.map Scan.kind?).getLast? = some (some .endOfFile)
  lexical : Scan.Lexical scans
  lexical' : Scan.Lexical scans'

namespace Journal

variable {w : Counterparts} {n : Nat} {e e' : Event} {k k' : Journal}

/-- Two journals went on with twin events, and passed `n` tokens each. -/
def Twin (w : Counterparts) (n : Nat) (k k' : Journal) : Prop :=
  ∃ events events', k = events ++ w.before ∧ k' = events' ++ w.before' ∧
    passed events = n ∧ passed events' = n ∧
    List.Forall₂ (Event.TwinPlaced w.scans w.scans') (placed events) (placed events')

theorem Twin.start (w : Counterparts) : Twin w 0 w.before w.before' :=
  ⟨[], [], rfl, rfl, rfl, rfl, .nil⟩

theorem passed_cons (e : Event) (j : Journal) :
    passed (e :: j) = passed j + if e.passes then 1 else 0 := List.countP_cons

theorem placed_payload (h : e.ofKinds = false) : placed (e :: k) = placed k := by
  simp [placed, h]

/-- Twin events are added to both journals. -/
theorem Twin.both (h : Twin w n k k') (he : Event.Twin w.scans w.scans' n e e') :
    Twin w (n + if e.passes then 1 else 0) (e :: k) (e' :: k') := by
  obtain ⟨events, events', rfl, rfl, hpassed, hpassed', hplaced⟩ := h
  refine ⟨e :: events, e' :: events', rfl, rfl, ?_, ?_, ?_⟩
  · rw [passed_cons, hpassed]
  · rw [passed_cons, hpassed', he.passes_eq]
  · unfold placed
    rw [he.ofKinds_eq, hpassed, hpassed']
    split
    · exact .cons ⟨rfl, he⟩ hplaced
    · exact hplaced

/-- An event that hangs on what a token carries is added to the first journal alone. -/
theorem Twin.left (h : Twin w n k k') (he : e.ofKinds = false) : Twin w n (e :: k) k' := by
  obtain ⟨events, events', rfl, rfl, hpassed, hpassed', hplaced⟩ := h
  refine ⟨e :: events, events', rfl, rfl, ?_, hpassed', ?_⟩
  · rw [passed_cons, Event.passes_of_payload he, hpassed]
    rfl
  · rw [placed_payload he]
    exact hplaced

/-- An event that hangs on what a token carries is added to the second journal alone. -/
theorem Twin.right (h : Twin w n k k') (he : e.ofKinds = false) : Twin w n k (e :: k') := by
  obtain ⟨events, events', rfl, rfl, hpassed, hpassed', hplaced⟩ := h
  refine ⟨events, e :: events', rfl, rfl, hpassed, ?_, ?_⟩
  · rw [passed_cons, Event.passes_of_payload he, hpassed']
    rfl
  · rw [placed_payload he]
    exact hplaced

theorem Twin.append_left {free : Journal} (h : Twin w n k k')
    (hfree : ∀ e ∈ free, e.ofKinds = false) : Twin w n (free ++ k) k' := by
  induction free with
  | nil => exact h
  | cons e free ih =>
    have hrest := ih fun e he => hfree e (List.mem_cons_of_mem _ he)
    exact hrest.left (hfree e List.mem_cons_self)

theorem Twin.append_right {free : Journal} (h : Twin w n k k')
    (hfree : ∀ e ∈ free, e.ofKinds = false) : Twin w n k (free ++ k') := by
  induction free with
  | nil => exact h
  | cons e free ih =>
    have hrest := ih fun e he => hfree e (List.mem_cons_of_mem _ he)
    exact hrest.right (hfree e List.mem_cons_self)

/-- The faults of tokens are reported in either journal. -/
theorem Twin.reported (h : Twin w n k k') {t t' : Token} {fault fault' : Option Problem}
    (ht : .token t fault ∈ w.scans) (ht' : .token t' fault' ∈ w.scans') :
    Twin w n (Stream.reported t fault k) (Stream.reported t' fault' k') := by
  have hleft : Twin w n (Stream.reported t fault k) k' := by
    cases fault with
    | none => exact h
    | some p =>
      apply h.left
      rcases w.lexical t p ht with rfl | ⟨c, rfl⟩
      · rfl
      · rfl
  cases fault' with
  | none => exact hleft
  | some p =>
    apply hleft.right
    rcases w.lexical' t' p ht' with rfl | ⟨c, rfl⟩
    · rfl
    · rfl

end Journal

/-! ### Streams -/

namespace Stream

variable {w : Counterparts} {n : Nat} {e e' : Event} {s s' : Stream}

/-- Streams at the position `n` of two sequences, with journals that are twins. -/
structure TwinAt (w : Counterparts) (n : Nat) (s s' : Stream) : Prop where
  first : ∃ fault, w.scans.drop n = .token s.head fault :: s.rest
  second : ∃ fault, w.scans'.drop n = .token s'.head fault :: s'.rest
  rules : s'.rules = s.rules
  journal : Journal.Twin w n s.journal s'.journal

/-- Streams at one position. -/
def Twin (w : Counterparts) (s s' : Stream) : Prop := ∃ n, TwinAt w n s s'

theorem kinds_drop (w : Counterparts) (n : Nat) :
    (w.scans'.drop n).map Scan.kind? = (w.scans.drop n).map Scan.kind? := by
  rw [List.map_drop, List.map_drop, w.kinds]

/-- The head tokens stand at the position of their streams. -/
theorem TwinAt.position (h : TwinAt w n s s') :
    Scan.SamePosition w.scans w.scans' n s.head s'.head := by
  obtain ⟨fault, hfirst⟩ := h.first
  obtain ⟨fault', hsecond⟩ := h.second
  have hkinds := kinds_drop w n
  rw [hfirst, hsecond, List.map_cons, List.map_cons] at hkinds
  refine ⟨?_, ?_, Option.some.inj (List.cons.inj hkinds).1⟩
  · have hget : w.scans[n]? = (w.scans.drop n)[0]? := by simp
    rw [hget, hfirst]
    rfl
  · have hget : w.scans'[n]? = (w.scans'.drop n)[0]? := by simp
    rw [hget, hsecond]
    rfl

theorem TwinAt.place (h : TwinAt w n s s') :
    Scan.SamePlace w.scans w.scans' s.head.location s'.head.location :=
  ⟨n, _, _, h.position, rfl, rfl⟩

theorem Twin.head_kind (h : Twin w s s') : s'.head.kind = s.head.kind := by
  obtain ⟨n, h⟩ := h
  exact h.position.kind

theorem Twin.headIs_eq (h : Twin w s s') (k : Kind) : s'.headIs k = s.headIs k := by
  rw [headIs, headIs, h.head_kind]

theorem Twin.headIn_eq (h : Twin w s s') (kinds : KindSet) :
    s'.headIn kinds = s.headIn kinds := by
  rw [headIn, headIn, h.head_kind]

theorem Twin.rules (h : Twin w s s') : s'.rules = s.rules := by
  obtain ⟨n, h⟩ := h
  exact h.rules

theorem TwinAt.rest_kinds (h : TwinAt w n s s') :
    s'.rest.map Scan.kind? = s.rest.map Scan.kind? := by
  obtain ⟨fault, hfirst⟩ := h.first
  obtain ⟨fault', hsecond⟩ := h.second
  have hkinds := kinds_drop w n
  rw [hfirst, hsecond, List.map_cons, List.map_cons] at hkinds
  exact (List.cons.inj hkinds).2

theorem Twin.rest_length (h : Twin w s s') : s'.rest.length = s.rest.length := by
  obtain ⟨n, h⟩ := h
  have hlength := congrArg List.length h.rest_kinds
  simpa using hlength

/-- Before the end of the input there are more scans. -/
theorem TwinAt.rest_ne_nil (h : TwinAt w n s s') (hne : s.head.kind ≠ .endOfFile) :
    s.rest ≠ [] := by
  intro hrest
  obtain ⟨fault, hfirst⟩ := h.first
  rw [hrest] at hfirst
  apply hne
  have hlast : (w.scans.map Scan.kind?).getLast? = some (some s.head.kind) := by
    rw [← List.take_append_drop n w.scans, hfirst]
    simp [Scan.kind?, Scan.token?]
  exact Option.some.inj (Option.some.inj (hlast.symm.trans w.ending))

/-- Behind the head there is a digit run that is too long to read, or a token in either
    sequence. -/
theorem TwinAt.rest_cases (h : TwinAt w n s s') (hne : s.head.kind ≠ .endOfFile) :
    (∃ m rest, s.rest = .overlong m :: rest) ∨
    ∃ t fault rest t' fault' rest', s.rest = .token t fault :: rest ∧
      s'.rest = .token t' fault' :: rest' := by
  have hkinds := h.rest_kinds
  have hnil := h.rest_ne_nil hne
  cases hrest : s.rest with
  | nil => exact absurd hrest hnil
  | cons x rest =>
    rw [hrest] at hkinds
    cases x with
    | overlong m => exact .inl ⟨m, rest, rfl⟩
    | token t fault =>
      cases hrest' : s'.rest with
      | nil =>
        rw [hrest'] at hkinds
        cases hkinds
      | cons x' rest' =>
        rw [hrest'] at hkinds
        cases x' with
        | overlong m =>
          have hnone : none = some t.kind := (List.cons.inj hkinds).1
          cases hnone
        | token t' fault' => exact .inr ⟨t, fault, rest, t', fault', rest', rfl, rfl⟩

/-! ### What happens to streams -/

/-- Twin events in which no token is passed leave streams at their position. -/
theorem TwinAt.event (h : TwinAt w n s s') (he : Event.Twin w.scans w.scans' n e e')
    (hstay : e.passes = false) :
    TwinAt w n { s with journal := e :: s.journal } { s' with journal := e' :: s'.journal } where
  first := h.first
  second := h.second
  rules := h.rules
  journal := by
    have hjournal := h.journal.both he
    rw [hstay] at hjournal
    exact hjournal

theorem TwinAt.trace {a a' : Action} (h : TwinAt w n s s')
    (ha : Action.Twin w.scans w.scans' n a a') (hstay : a.token? = none) :
    TwinAt w n (s.trace a) (s'.trace a') := by
  have hdepth : s'.depth = s.depth := congrArg List.length h.rules
  have hevent := h.event (.trace s.depth ha) (by simp [Event.passes, hstay])
  rw [← hdepth] at hevent
  unfold Stream.trace
  rw [← hdepth]
  exact hevent

theorem TwinAt.report {p p' : Problem} {l l' : Location} (h : TwinAt w n s s')
    (hp : Problem.Twin w.scans w.scans' n p p') (hl : Scan.SamePlace w.scans w.scans' l l') :
    TwinAt w n (s.report p l) (s'.report p' l') :=
  h.event (.report .error hp hl) rfl

/-- Streams move on to the next tokens behind events in which the head tokens are passed. -/
theorem TwinAt.moved (h : TwinAt w n s s') (he : Event.Twin w.scans w.scans' n e e')
    (hpass : e.passes = true) {t t' : Token} {fault fault' : Option Problem}
    {rest rest' : List Scan} (hrest : s.rest = .token t fault :: rest)
    (hrest' : s'.rest = .token t' fault' :: rest') :
    TwinAt w (n + 1)
      { s with head := t, rest := rest, journal := reported t fault (e :: s.journal) }
      { s' with head := t', rest := rest', journal := reported t' fault' (e' :: s'.journal) } := by
  obtain ⟨before, hfirst⟩ := h.first
  obtain ⟨before', hsecond⟩ := h.second
  have hnext : w.scans.drop (n + 1) = .token t fault :: rest := by
    rw [← List.tail_drop, hfirst, List.tail_cons, hrest]
  have hnext' : w.scans'.drop (n + 1) = .token t' fault' :: rest' := by
    rw [← List.tail_drop, hsecond, List.tail_cons, hrest']
  have hmem : .token t fault ∈ w.scans :=
    List.mem_of_mem_drop (hnext ▸ List.mem_cons_self)
  have hmem' : .token t' fault' ∈ w.scans' :=
    List.mem_of_mem_drop (hnext' ▸ List.mem_cons_self)
  have hjournal := h.journal.both he
  rw [hpass] at hjournal
  exact ⟨⟨fault, hnext⟩, ⟨fault', hnext'⟩, h.rules, hjournal.reported hmem hmem'⟩

end Stream

end PlZero
