/-
  PlZero/Proofs/Progress/Costs.lean
  =================================
  **What the rules of the grammar cost.**  `Priced k c m` says that the reader `m` costs at most
  `c` diagnostics wherever it starts, and at most `k` if it is aborted, where tokens that are
  taken pay for others (`Stream.credit`).  There is one rule for every way to build a reader,
  and then one price for every reader of the grammar.

  The prices are those of a rule that finds nothing.  A rule that nests in itself has the same
  price on every level, since what nests in it stands behind a token that pays for it.
-/
import PlZero.Proofs.Progress.Weight

namespace PlZero

/-- The weight of a state is that of its stream. -/
def ReaderState.weight (s : ReaderState) : Int := s.stream.weight

namespace Reader

/-- What a reader costs wherever it starts. -/
def Priced {α : Type} (k c : Int) (m : Reader α) : Prop :=
  ∀ s, Costs ReaderState.weight s.weight k c m s

variable {α β : Type} {k c k' c' : Int} {m : Reader α} {f : α → Reader β} {s : ReaderState}
  {recover : KindSet} {W p : Int}

/-! ### Bodies -/

theorem Priced.mono (h : Priced k c m) (hk : k ≤ k') (hc : c ≤ c') : Priced k' c' m :=
  fun s => (h s).mono hk hc

/-- The body of a reader starts with nothing spent. -/
theorem Priced.of (h : ∀ W s, ReaderState.weight s ≤ W + 0 → Costs ReaderState.weight W k c m s) :
    Priced k c m :=
  fun s => h s.weight s (by omega)

/-- Looking something up costs nothing. -/
theorem Costs.look {look : ReaderState → α}
    (h : Costs ReaderState.weight W k c (f (look s)) s) :
    Costs ReaderState.weight W k c (reads look >>= f) s := h

theorem Priced.look {look : ReaderState → α} (h : ∀ a, Priced k c (f a)) :
    Priced k c (reads look >>= f) :=
  fun s => h _ s

/-! ### The stream -/

theorem Costs.onStream {op : StreamM α} (h : Costs Stream.weight s.stream.weight k c op s.stream) :
    Costs ReaderState.weight s.weight k c (onStream op) s := by
  cases hop : op s.stream with
  | ok a u =>
    have hrun : Reader.onStream op s = .ok a (s.withStream u) := by
      simp only [Reader.onStream, hop]
      rfl
    exact .of_ok hrun (h.ok hop)
  | error e u =>
    have hrun : Reader.onStream op s = .error e (s.withStream u) := by
      simp only [Reader.onStream, hop]
      rfl
    exact .of_error hrun (h.error hop)

theorem Priced.onStream {op : StreamM α} (h : ∀ s, Costs Stream.weight s.weight k c op s) :
    Priced k c (onStream op) :=
  fun s => Costs.onStream (h s.stream)

/-- A reader whose result is made of that of another costs the same. -/
theorem Priced.map (h : Priced k c m) {g : α → β} :
    Priced k c (do return g (← m)) :=
  .of fun _ _ hs => .step hs (h _) (by omega) fun _ _ ht => .pure ht (by omega)

theorem name_priced : Priced 1 0 name :=
  .map (.onStream Stream.name_costs)

theorem number_priced : Priced 1 0 number :=
  .map (.onStream Stream.number_costs)

theorem expect_priced {k : Kind} (hk : k ≠ .endOfFile) : Priced 1 (-Stream.credit) (expect k) :=
  .onStream (Stream.expect_costs hk)

theorem demand_priced {k : Kind} : Priced 1 1 (demand k recover) :=
  .map (.onStream (Stream.demand_costs k recover))

theorem demand_here_costs {k : Kind} (hk : k ≠ .endOfFile) (hhere : s.stream.head.kind = k) :
    Costs ReaderState.weight s.weight 1 (-Stream.credit) (demand k recover) s := by
  refine Costs.step (p := 0) (by omega) (Costs.onStream (Stream.demand_costs_here hk hhere))
    (by decide) fun _ t ht => ?_
  exact .pure ht (by decide)

theorem skipTo_priced : Priced 0 0 (skipTo recover) := .onStream (Stream.skipTo_costs recover)

theorem skipParenthesised_priced : Priced 0 0 (onStream Stream.skipParenthesised) :=
  .onStream Stream.skipParenthesised_costs

theorem report_priced {p : Problem} {l : Location} : Priced 1 1 (report p l) := by
  intro s
  exact .of_ok (a := ()) (t := s.withStream (s.stream.report p l)) rfl
    (Int.le_of_eq (Stream.weight_report s.stream p l))

theorem reportUnless_priced {holds : Prop} [Decidable holds] {p : Problem} {l : Location} :
    Priced 1 1 (reportUnless holds p l) := by
  unfold reportUnless
  split
  · exact fun s => .pure (p := 0) (by omega) (by decide)
  · exact report_priced

theorem note_priced {n : Note} : Priced 1 0 (note n) := by
  intro s
  refine .of_ok (a := ()) (t := s.withStream (s.stream.noted n)) rfl ?_
  show (s.stream.noted n).weight ≤ s.stream.weight + 0
  rw [Stream.weight_noted]
  omega

theorem setSymbols_priced {g : ReaderState → SymbolTable} :
    Priced 1 0 (modify fun s => { s with symbols := g s }) := by
  intro s
  refine .of_ok (a := ()) (t := { s with symbols := g s }) rfl ?_
  show s.stream.weight ≤ s.stream.weight + 0
  omega

/-- A reader that ends the run reports why. -/
theorem unreachable_priced {r : Rule} (hk : 1 ≤ k) : Priced k c (unreachable r : Reader α) := by
  intro s
  refine .of_error (m := Reader.unreachable r) rfl ?_
  show Stream.weight _ ≤ s.stream.weight + k
  rw [Stream.weight_fatally]
  omega

theorem tooDeep_priced (hk : 1 ≤ k) : Priced k c (tooDeep : Reader α) := by
  intro s
  refine .of_error (m := Reader.tooDeep) rfl ?_
  show Stream.weight _ ≤ s.stream.weight + k
  rw [Stream.weight_fatally]
  omega

theorem Priced.deeper (h : Priced k c m) : Priced k c (deeper m) := by
  intro s
  cases hm : m s.deepened with
  | ok a t =>
    have hrun : Reader.deeper m s = .ok a { t with nesting := t.nesting - 1 } := by
      show (m >>= _) s.deepened = _
      simp only [Bind.bind, EStateM.bind, hm]
      rfl
    have ht : t.weight ≤ s.deepened.weight + c := (h s.deepened).ok hm
    exact .of_ok hrun ht
  | error e t =>
    have hrun : Reader.deeper m s = .error e t := by
      show (m >>= _) s.deepened = _
      simp only [Bind.bind, EStateM.bind, hm]
    exact .of_error hrun ((h s.deepened).error hm)

/-! ### Rule brackets -/

theorem endRule_priced {rule : String} : Priced 1 1 (onStream (Stream.endRule rule recover)) :=
  .onStream (Stream.endRule_costs rule recover)

/-- Behind the body of a rule a token may stand that cannot follow. -/
theorem closing_costs {rule : String} {a : α} (hs : s.weight ≤ W + p) (hk : p + 1 ≤ k)
    (hc : p + 1 ≤ c) :
    Costs ReaderState.weight W k c
      (do onStream (Stream.endRule rule recover); return a : Reader α) s := by
  refine .step hs (endRule_priced s) hk fun _ t ht => ?_
  exact .pure ht hc

/-- A rule costs two diagnostics more than its body, or the one that it was not found. -/
theorem Priced.attempt {r : Rule} {placeholder : Location → α} {body : Location → Reader α}
    (hbody : ∀ l, Priced k c (body l)) (hk : 1 + k ≤ k') (hc : 1 + c + 1 ≤ c') (hfew : 1 ≤ c')
    (hless : c' ≤ k') : Priced k' c' (attempt r recover placeholder body) := by
  refine .of fun W s hs => Costs.look ?_
  refine .step hs (Costs.onStream (Stream.beginRule_costs _ _ _ _)) (by omega) fun begun t ht => ?_
  cases begun with
  | true =>
    refine Costs.step ht (hbody _ t) (by omega) fun a u hu => ?_
    exact closing_costs hu (by omega) (by omega)
  | false => exact .pure ht (by omega)

/-- A rule whose start is the head token costs one diagnostic more than its body. -/
theorem attempt_here_costs {r : Rule} {placeholder : Location → α} {body : Location → Reader α}
    (hhead : s.stream.head.kind ∈ r.starts) (hbody : ∀ l, Priced k c (body l))
    (hless : c + 1 ≤ k) :
    Costs ReaderState.weight s.weight k (c + 1) (attempt r recover placeholder body) s := by
  have hbegin : onStream (Stream.beginRule r.title r.starts recover) s =
      .ok true (s.withStream (s.stream.opened r.title)) := by
    simp only [Reader.onStream, Stream.beginRule_here r.title recover hhead]
    rfl
  have hopened : (s.withStream (s.stream.opened r.title)).weight ≤ s.weight + 0 := by
    show (s.stream.opened r.title).weight ≤ s.stream.weight + 0
    rw [Stream.weight_opened]
    omega
  apply Costs.look
  refine Costs.of_run hbegin ?_
  refine Costs.step hopened (hbody _ _) (by omega) fun a u hu => ?_
  exact closing_costs hu (by omega) (by omega)

theorem attempt_costs {r : Rule} {placeholder : Location → α} {body : Location → Reader α}
    (hbody : ∀ l, Priced k c (body l)) (hk : 1 + k ≤ k') (hc : 1 + c + 1 ≤ c') (hfew : 1 ≤ c')
    (hless : c' ≤ k') (hhere : c + 1 ≤ k) :
    Priced k' c' (attempt r recover placeholder body) ∧
      ∀ s : ReaderState, s.stream.head.kind ∈ r.starts →
        Costs ReaderState.weight s.weight k (c + 1) (attempt r recover placeholder body) s :=
  ⟨.attempt hbody hk hc hfew hless, fun _ hhead => attempt_here_costs hhead hbody hhere⟩

/-- A rule that the head token was seen to start is sure to be entered. -/
theorem Priced.certainly {r : Rule} {body : Location → Reader α}
    (hbody : ∀ l (t : ReaderState), t.stream.head.kind ∈ r.starts →
      Costs ReaderState.weight t.weight k c (body l) t) (hk : 1 ≤ k) (hless : c + 1 ≤ k) :
    Priced k (c + 1) (certainly r recover body) := by
  intro s
  by_cases hhead : s.stream.head.kind ∈ r.starts
  · have hbegin : Reader.onStream (Stream.beginCertain r.title r.starts) s =
        .ok () (s.withStream (s.stream.opened r.title)) := by
      simp only [Reader.onStream, Stream.beginCertain_of_start hhead]
      rfl
    have hopened : (s.withStream (s.stream.opened r.title)).weight ≤ s.weight + 0 := by
      show (s.stream.opened r.title).weight ≤ s.stream.weight + 0
      rw [Stream.weight_opened]
      omega
    refine Costs.of_run hbegin (Costs.look ?_)
    refine Costs.step hopened (hbody _ _ hhead) (by omega) fun a u hu => ?_
    exact closing_costs hu (by omega) (by omega)
  · have hfail : Reader.onStream (Stream.beginCertain r.title r.starts) s =
        Reader.onStream (Stream.fatal (.broken (.startExpected r.title s.stream.head))
          s.stream.head.location) s := by
      simp only [Reader.onStream, Stream.beginCertain_of_other hhead]
    refine Costs.of_stop hfail ?_
    show Stream.weight _ ≤ s.stream.weight + k
    rw [Stream.weight_fatally]
    omega

/-! ### Loops -/

/-- A loop costs nothing if a turn costs nothing. -/
theorem whileIn_costs {kinds : KindSet} {turn : α → Reader α}
    (hturn : ∀ a (t : ReaderState), t.stream.head.kind ∈ kinds →
      Costs ReaderState.weight t.weight k 0 (turn a) t) (a : α) :
    Priced k 0 (whileIn kinds turn a) := by
  refine .of fun W s hs => Costs.look ?_
  generalize s.stream.rest = scans
  induction scans generalizing a s with
  | nil =>
    by_cases hin : s.stream.head.kind ∈ kinds
    · unfold Costs
      rw [repeatWhile_last hin]
      exact Costs.last hs (hturn a s hin) (by omega) (by omega)
    · exact .of_ok (repeatWhile_out hin) hs
  | cons x scans ih =>
    by_cases hin : s.stream.head.kind ∈ kinds
    · unfold Costs
      rw [repeatWhile_next hin]
      exact Costs.step hs (hturn a s hin) (by omega) fun b t ht => ih b t ht
    · exact .of_ok (repeatWhile_out hin) hs

/-- The parts behind separators are paid for by these. -/
theorem Priced.separated {sign : Kind} {pass : Reader Unit} {part : Reader α}
    (hpass : ∀ t : ReaderState, t.stream.head.kind = sign →
      Costs ReaderState.weight t.weight 1 (-Stream.credit) pass t)
    (hpart : Priced k c part) (hk : k ≤ Stream.credit) (hc : c ≤ Stream.credit)
    (hless : k ≤ k') (hmore : c + 1 ≤ k') : Priced k' c (separated sign pass part) := by
  unfold Stream.credit at hk hc
  have hturn : ∀ found (t : ReaderState), t.stream.head.kind ∈ ({sign} : KindSet) →
      Costs ReaderState.weight t.weight 1 0 (Grammar.further pass part found) t := by
    intro found t hin
    refine Costs.step (p := 0) (by omega) (hpass t (KindSet.mem_singleton.mp hin)) (by decide)
      fun _ u hu => ?_
    refine .step hu (hpart u) (by unfold Stream.credit; omega) fun a v hv => ?_
    exact .pure hv (by unfold Stream.credit; omega)
  rw [Grammar.separated_eq]
  refine .of fun W s hs => .step hs (hpart s) (by omega) fun first t ht => ?_
  refine .step ht (whileIn_costs hturn _ t) (by omega) fun found u hu => ?_
  exact .pure hu (by omega)

/-! ### Declarations and scopes -/

theorem declared_priced {what : Declared} {name : String} {l : Location}
    {outcome : Option (Entry × SymbolTable)} : Priced 1 1 (declared what name l outcome) := by
  cases outcome with
  | some added =>
    refine .of fun W s hs => .step hs (setSymbols_priced s) (by decide) fun _ t ht => ?_
    exact .pure ht (by decide)
  | none =>
    refine .of fun W s hs => .step hs (report_priced s) (by decide) fun _ t ht => ?_
    exact .pure ht (by decide)

theorem leaveScope_priced : Priced 1 0 leaveScope := by
  refine .of fun W s hs => Costs.look ?_
  cases s.symbols.leave with
  | some outer =>
    refine Costs.step hs (setSymbols_priced s) (by decide) fun _ t ht => ?_
    exact .last ht (note_priced t) (by decide) (by decide)
  | none =>
    refine .of_error (m := onStream (Stream.fatal _ _)) rfl ?_
    show Stream.weight _ ≤ W + 1
    rw [Stream.weight_fatally]
    exact Int.add_le_add_right (Int.le_trans hs (by omega)) 1

theorem Priced.inScope {owner : Nat} {body : Nat → Reader α} (h : ∀ n, Priced k c (body n))
    (h1 : 1 ≤ k) (hless : c + 1 ≤ k) : Priced k c (inScope owner body) := by
  have henter : Priced 1 0 (enterScope owner) := by
    refine .of fun W s hs => Costs.look ?_
    refine .step hs (setSymbols_priced s) (by decide) fun _ t ht => ?_
    refine .step ht (note_priced t) (by decide) fun _ u hu => ?_
    exact .pure hu (by decide)
  refine .of fun W s hs => .step hs (henter s) (by omega) fun scope t ht => ?_
  refine .step ht (h scope t) (by omega) fun a u hu => ?_
  refine .step hu (leaveScope_priced u) (by omega) fun _ v hv => ?_
  exact .pure hv (by omega)

end Reader

end PlZero
