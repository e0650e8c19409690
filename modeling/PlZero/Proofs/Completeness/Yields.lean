/-
  PlZero/Proofs/Completeness/Yields.lean
  ======================================
  **What is read off tokens that are as they should be.**  `Yields E n T m ts after a ds U`
  says what the reader `m` does with the tokens `ts` if `after` stands behind them, `n`
  levels of nesting are open and the table is `T`: it takes just these tokens, reports
  just `ds`, and ends with the result `a` and the table `U`, or it aborts as `E` admits.
  All of this is known from the tokens alone, so the rules do not mention states, and a
  rule of the grammar is proved by walking along a derivation.

  Where a bracket or a loop looks at the token behind its part, the rule asks for the kind
  of the first token of `after` (`nextKind`).
-/
import PlZero.Proofs.Reading.Ends
import PlZero.Proofs.Derivation.Tree
import PlZero.Proofs.Stream.Paired
import PlZero.Proofs.Stream.Past

namespace PlZero

/-- The kind of the first of some tokens; the end of the input if there are none. -/
def nextKind (ts : List Token) : Kind := (ts.head?.map Token.kind).getD .endOfFile

theorem nextKind_of_head? {ts after : List Token} {t : Token} (h : ts.head? = some t) :
    nextKind (ts ++ after) = t.kind := by
  simp only [nextKind, List.head?_append, h, Option.some_or, Option.map_some, Option.getD_some]

/-- A caller that waits for a kind is content with a token of it. -/
theorem nextKind_mem {k : Kind} (t : Derivation.TokenOf k) (us : List Token) (ks : KindSet) :
    nextKind (t.val :: us) ∈ ks ∪ {k} :=
  KindSet.mem_union.mpr (.inr (KindSet.mem_braces.mpr t.property))

theorem nextKind_not_mem {k : Kind} (t : Derivation.TokenOf k) (us : List Token) {ks : KindSet}
    (h : k ∉ ks) : nextKind (t.val :: us) ∉ ks := by
  show t.val.kind ∉ ks
  rw [t.property]
  exact h

namespace Stream

variable {s u : Stream} {rule : String} {starts recover : KindSet} {b : Bool}

theorem head_kind (s : Stream) : s.head.kind = nextKind s.ahead := by
  by_cases h : s.head.kind = .endOfFile
  · rw [ahead_of_end h, h]
    rfl
  · rw [ahead_of_ne h]
    rfl

theorem Demanded.of_kind {k : Kind} (h : Demanded k s u) (hk : s.head.kind = k) :
    u = s.consumed := by
  cases h with
  | here _ => rfl
  | missing hne _ => exact absurd hk hne

theorem Begun.of_start (h : Begun rule starts recover s b u) (hk : s.head.kind ∈ starts) :
    b = true ∧ u = s.opened rule := by
  cases h with
  | here _ => exact ⟨rfl, rfl⟩
  | found hne _ _ => exact absurd hk hne
  | lost hne _ _ => exact absurd hk hne

theorem Ended.of_follow (h : Ended rule recover s u) (hk : s.head.kind ∈ recover) :
    u = s.closed rule := by
  cases h with
  | here _ => rfl
  | skipped hne _ _ => exact absurd hk hne

end Stream

namespace ReaderState

/-- A state before some tokens, none of which has a fault, with the nesting `n` and the
    table `T`. -/
structure Before (n : Nat) (T : SymbolTable) (ts : List Token) (s : ReaderState) : Prop where
  clear : s.stream.Clear
  faultless : s.stream.Faultless
  nesting : s.nesting = n
  symbols : s.symbols = T
  ahead : s.stream.ahead = ts

/-- What one state has reported since another, with the same rules being read. -/
structure Since (ds : List Diagnostic) (s t : ReaderState) : Prop where
  reports : t.stream.reports = ds.reverse ++ s.stream.reports
  rules : t.stream.rules = s.stream.rules

variable {n : Nat} {T : SymbolTable} {t : Token} {ts us : List Token} {ds ds' : List Diagnostic}
  {s u v : ReaderState}

theorem Since.refl (s : ReaderState) : s.Since [] s := ⟨rfl, rfl⟩

theorem Since.trans (h : s.Since ds u) (h' : u.Since ds' v) : s.Since (ds ++ ds') v := by
  refine ⟨?_, h'.rules.trans h.rules⟩
  rw [h'.reports, h.reports, List.reverse_append, List.append_assoc]

theorem Before.head (h : s.Before n T (t :: ts)) : s.stream.head = t :=
  (Stream.head_of_ahead h.ahead).1

theorem Before.head_kind (h : s.Before n T ts) : s.stream.head.kind = nextKind ts := by
  rw [s.stream.head_kind, h.ahead]

theorem Before.consumed (h : s.Before n T (t :: ts)) :
    (s.withStream s.stream.consumed).Before n T ts ∧
      s.Since [] (s.withStream s.stream.consumed) := by
  have hrest := (Stream.Moved.consumed s.stream).toOnward.rest
  refine ⟨⟨h.clear.of_suffix hrest, h.faultless.of_suffix hrest, h.nesting, h.symbols, ?_⟩,
    Stream.reports_consumed h.faultless, Stream.rules_consumed _⟩
  show s.stream.consumed.ahead = ts
  rw [Stream.ahead_consumed, h.ahead, List.tail_cons]

/-- A stream behind tokens that were passed over without a report. -/
theorem Before.behind {w : Stream} (h : s.Before n T (us ++ ts))
    (hw : Stream.Behind us s.stream w) :
    (s.withStream w).Before n T ts ∧ s.Since [] (s.withStream w) := by
  refine ⟨⟨h.clear.of_suffix hw.rest, h.faultless.of_suffix hw.rest, h.nesting, h.symbols, ?_⟩,
    hw.reports h.faultless, hw.rules⟩
  exact List.append_cancel_left (hw.ahead.symm.trans h.ahead)

/-- A stream behind tokens that a skip passes over. -/
theorem Before.past (h : s.Before n T (us ++ ts)) :
    (s.withStream (.past us.length s.stream)).Before n T ts ∧
      s.Since [] (s.withStream (.past us.length s.stream)) := by
  refine h.behind ⟨?_, Stream.past_rest _ _, Stream.past_rules _ _, Stream.past_reports _⟩
  rw [Stream.past_ahead, h.ahead, List.drop_left]

theorem Before.reported (h : s.Before n T ts) (p : Problem) (l : Location) :
    (s.withStream (s.stream.report p l)).Before n T ts :=
  ⟨h.clear, h.faultless, h.nesting, h.symbols, h.ahead⟩

theorem Before.noted (h : s.Before n T ts) (x : Note) :
    (s.withStream (s.stream.noted x)).Before n T ts ∧
      s.Since [] (s.withStream (s.stream.noted x)) :=
  ⟨⟨h.clear, h.faultless, h.nesting, h.symbols, h.ahead⟩, rfl, rfl⟩

end ReaderState

namespace Reader

/-- With `n` levels of nesting open and the table `T`, a reader takes the tokens `ts` that
    stand before `after` and reports `ds`, its result is `a` and it leaves the table `U`;
    or it aborts as `E` admits. -/
def Yields {α : Type} (E : Abort → Stream → Prop) (n : Nat) (T : SymbolTable) (m : Reader α)
    (ts after : List Token) (a : α) (ds : List Diagnostic) (U : SymbolTable) : Prop :=
  ∀ s : ReaderState, s.Before n T (ts ++ after) →
    Ends E m (fun b t => b = a ∧ t.Before n U after ∧ s.Since ds t) s

variable {α β : Type} {E : Abort → Stream → Prop} {n : Nat} {T U V : SymbolTable} {m : Reader α}
  {f : α → Reader β} {ts us vs after rest : List Token} {t : Token} {a : α} {b : β}
  {ds ds' : List Diagnostic} {k : Kind} {recover : KindSet}

/-! ### Logic -/

theorem Yields.pure : Yields E n T (pure a) [] after a [] T :=
  fun s hs => .pure ⟨rfl, hs, .refl s⟩

theorem Yields.bind (hm : Yields E n T m us (vs ++ after) a ds U)
    (hf : Yields E n U (f a) vs after b ds' V) :
    Yields E n T (m >>= f) (us ++ vs) after b (ds ++ ds') V := by
  intro s hs
  rw [List.append_assoc] at hs
  refine .bind ((hm s hs).post ?_)
  rintro _ t ⟨rfl, ht, hst⟩
  refine (hf t ht).post ?_
  rintro _ u ⟨rfl, hu, htu⟩
  exact ⟨rfl, hu, hst.trans htu⟩

/-- A part that reports nothing. -/
theorem Yields.quiet (hm : Yields E n T m us (vs ++ after) a [] U)
    (hf : Yields E n U (f a) vs after b ds V) : Yields E n T (m >>= f) (us ++ vs) after b ds V :=
  hm.bind hf

/-- A part behind which nothing is reported. -/
theorem Yields.ending (hm : Yields E n T m us (vs ++ after) a ds U)
    (hf : Yields E n U (f a) vs after b [] V) : Yields E n T (m >>= f) (us ++ vs) after b ds V := by
  rw [← List.append_nil ds]
  exact hm.bind hf

/-- A part that takes one token and reports nothing. -/
theorem Yields.single (hm : Yields E n T m [t] (ts ++ after) a [] U)
    (hf : Yields E n U (f a) ts after b ds V) : Yields E n T (m >>= f) (t :: ts) after b ds V :=
  hm.bind hf

/-- A part that takes nothing and reports nothing. -/
theorem Yields.still (hm : Yields E n T m [] (ts ++ after) a [] U)
    (hf : Yields E n U (f a) ts after b ds V) : Yields E n T (m >>= f) ts after b ds V :=
  hm.bind hf

/-- A part that takes nothing, behind which nothing is reported. -/
theorem Yields.aside (hm : Yields E n T m [] (ts ++ after) a ds U)
    (hf : Yields E n U (f a) ts after b [] V) : Yields E n T (m >>= f) ts after b ds V :=
  Yields.ending hm hf

/-- A part behind which nothing is taken or reported. -/
theorem Yields.last (hm : Yields E n T m ts after a ds U)
    (hf : Yields E n U (f a) [] after b [] V) : Yields E n T (m >>= f) ts after b ds V := by
  rw [← List.append_nil ts]
  exact Yields.ending hm hf

/-- A last part, of which something is made. -/
theorem Yields.map {g : α → β} (hm : Yields E n T m ts after a ds U) :
    Yields E n T (m >>= fun x => Pure.pure (g x)) ts after (g a) ds U := by
  refine fun s hs => .bind ((hm s hs).post ?_)
  rintro _ t ⟨rfl, ht⟩
  exact .pure ⟨rfl, ht⟩

theorem Yields.tooDeep (h : AdmitsTooDeep E) :
    Yields E n T (Reader.tooDeep : Reader α) ts after a ds U :=
  fun _ _ => .tooDeep h

/-! ### Looking at the head -/

theorem Yields.look {look : ReaderState → α} (hlook : ∀ s, s.Before n T (ts ++ after) → look s = a)
    (hf : Yields E n T (f a) ts after b ds U) :
    Yields E n T (reads look >>= f) ts after b ds U := by
  refine fun s hs => .bind (.reads ?_)
  rw [hlook s hs]
  exact hf s hs

/-- Looking at something that makes no difference. -/
theorem Yields.glance {look : ReaderState → α}
    (hf : ∀ a, Yields E n T (f a) ts after b ds U) :
    Yields E n T (reads look >>= f) ts after b ds U :=
  fun s hs => .bind (.reads (hf (look s) s hs))

theorem Yields.head {f : Token → Reader β} (ht : ts ++ after = t :: rest)
    (hf : Yields E n T (f t) ts after b ds U) : Yields E n T (head >>= f) ts after b ds U :=
  .look (fun _ hs => (ht ▸ hs).head) hf

theorem Yields.location {f : Location → Reader β} (ht : ts ++ after = t :: rest)
    (hf : Yields E n T (f t.location) ts after b ds U) :
    Yields E n T (location >>= f) ts after b ds U :=
  .look (fun _ hs => congrArg Token.location (ht ▸ hs).head) hf

theorem Yields.headIs {f : Bool → Reader β}
    (hf : Yields E n T (f (nextKind (ts ++ after) == k)) ts after b ds U) :
    Yields E n T (headIs k >>= f) ts after b ds U :=
  .look (fun s hs => by rw [Stream.headIs, hs.head_kind]) hf

theorem Yields.headIn {kinds : KindSet} {f : Bool → Reader β}
    (hf : Yields E n T (f (kinds.contains (nextKind (ts ++ after)))) ts after b ds U) :
    Yields E n T (headIn kinds >>= f) ts after b ds U :=
  .look (fun s hs => by rw [Stream.headIn, hs.head_kind]) hf

theorem Yields.currentScope {f : Nat → Reader β}
    (hf : Yields E n T (f T.current) ts after b ds U) :
    Yields E n T (currentScope >>= f) ts after b ds U :=
  .look (fun _ hs => congrArg SymbolTable.current hs.symbols) hf

theorem Yields.symbols {f : SymbolTable → Reader β} (hf : Yields E n T (f T) ts after b ds U) :
    Yields E n T (reads ReaderState.symbols >>= f) ts after b ds U :=
  .look (fun _ hs => hs.symbols) hf

theorem Yields.atLimit {f : Bool → Reader β} (hn : n < Grammar.maxNesting)
    (hf : Yields E n T (f false) ts after b ds U) :
    Yields E n T (atLimit >>= f) ts after b ds U :=
  .look (fun _ hs => decide_eq_false (by rw [hs.nesting]; omega)) hf

theorem Yields.full {f : Bool → Reader β} (hn : Grammar.maxNesting ≤ n)
    (hf : Yields E n T (f true) ts after b ds U) :
    Yields E n T (Reader.atLimit >>= f) ts after b ds U :=
  .look (fun _ hs => decide_eq_true (by rw [hs.nesting]; exact hn)) hf

theorem Yields.name {f : String → Reader β} (ht : ts ++ after = t :: rest)
    (hk : t.kind = .identifier) (hf : Yields E n T (f t.payload.name) ts after b ds U) :
    Yields E n T (name >>= f) ts after b ds U := by
  intro s hs
  have hhead : s.stream.head = t := (ht ▸ hs).head
  exact .bind (.name (hhead ▸ hk) (hhead ▸ hf s hs))

theorem Yields.number {f : Int → Reader β} (ht : ts ++ after = t :: rest)
    (hk : t.kind = .number) (hf : Yields E n T (f t.payload.value) ts after b ds U) :
    Yields E n T (number >>= f) ts after b ds U := by
  intro s hs
  have hhead : s.stream.head = t := (ht ▸ hs).head
  exact .bind (.number (hhead ▸ hk) (hhead ▸ hf s hs))

/-! ### Taking tokens -/

theorem Yields.expect {f : Unit → Reader β} (hk : t.kind = k)
    (hf : Yields E n T (f ()) ts after b ds U) :
    Yields E n T (expect k >>= f) (t :: ts) after b ds U := by
  intro s hs
  obtain ⟨hu, hsince⟩ := hs.consumed
  refine .bind (.expect hs.clear (hs.head ▸ hk) ((hf _ hu).post ?_))
  rintro _ v ⟨rfl, hv, hsince'⟩
  exact ⟨rfl, hv, hsince.trans hsince'⟩

theorem Yields.demand {follow : KindSet} {f : Unit → Reader β} (hk : t.kind = k)
    (hf : Yields E n T (f ()) ts after b ds U) :
    Yields E n T (demand k follow >>= f) (t :: ts) after b ds U := by
  intro s hs
  refine .bind (.demand hs.clear fun u hu => ?_)
  obtain rfl := hu.of_kind (hs.head ▸ hk)
  obtain ⟨hu, hsince⟩ := hs.consumed
  refine (hf _ hu).post ?_
  rintro _ v ⟨rfl, hv, hsince'⟩
  exact ⟨rfl, hv, hsince.trans hsince'⟩

theorem Yields.demand_last {follow : KindSet} (hk : t.kind = k) :
    Yields E n T (Reader.demand k follow) [t] after () [] T := by
  have h : Yields E n T (Reader.demand k follow >>= Pure.pure) [t] after () [] T :=
    .demand hk .pure
  rwa [bind_pure] at h

theorem Yields.expect_last (hk : t.kind = k) :
    Yields E n T (Reader.expect k) [t] after () [] T := by
  have h : Yields E n T (Reader.expect k >>= Pure.pure) [t] after () [] T := .expect hk .pure
  rwa [bind_pure] at h

/-- Tokens that are skipped up to one that is looked for. -/
theorem Yields.skipTo {find : KindSet} (hout : ∀ u ∈ ts, u.kind ∉ find)
    (hstop : nextKind after ∈ find) : Yields E n T (Reader.skipTo find) ts after () [] T := by
  intro s hs
  obtain ⟨hpast, hsince⟩ := hs.past
  have hfound : ∀ t, after.head? = some t → t.kind ∈ find := by
    intro t ht
    rwa [nextKind, ht] at hstop
  exact .onStream (Stream.skipTo_past hs.clear hs.ahead hout hfound) ⟨rfl, hpast, hsince⟩

/-- Tokens up to the partner of a parenthesis that was taken. -/
theorem Yields.skipParenthesised (hts : Paired ts) (hk : t.kind = .rightParen) :
    Yields E n T (onStream Stream.skipParenthesised) (ts ++ [t]) after () [] T := by
  intro s hs
  have hahead : s.stream.ahead = ts ++ t :: after := by
    rw [hs.ahead, List.append_assoc]
    rfl
  obtain ⟨u, hu, hbehind⟩ := Stream.skipParenthesised_paired hts hk hs.clear hahead
  exact .onStream hu ⟨rfl, hs.behind hbehind⟩

theorem Yields.report {p : Problem} {l : Location} :
    Yields E n T (report p l) [] after () [⟨.error, p, l⟩] T :=
  fun _ hs => .report ⟨rfl, ⟨hs.clear, hs.faultless, hs.nesting, hs.symbols, hs.ahead⟩, rfl, rfl⟩

theorem Yields.note {x : Note} : Yields E n T (note x) [] after () [] T :=
  fun _ hs => .modify ⟨rfl, hs.noted x⟩

theorem Yields.setSymbols :
    Yields E n T (modify fun s => { s with symbols := U }) [] after () [] U :=
  fun _ hs => .modify ⟨rfl, ⟨hs.clear, hs.faultless, hs.nesting, rfl, hs.ahead⟩, rfl, rfl⟩

/-! ### Nesting and scopes -/

theorem Yields.deeper (hm : Yields E (n + 1) T m ts after a ds U) :
    Yields E n T (deeper m) ts after a ds U := by
  refine fun s hs => .deeper ((hm s.deepened ⟨hs.clear, hs.faultless,
    congrArg (· + 1) hs.nesting, hs.symbols, hs.ahead⟩).post ?_)
  rintro _ t ⟨rfl, ht, hsince⟩
  refine ⟨rfl, ⟨ht.clear, ht.faultless, ?_, ht.symbols, ht.ahead⟩, hsince.reports, hsince.rules⟩
  show t.nesting - 1 = n
  rw [ht.nesting, Nat.add_sub_cancel]

theorem Yields.inScope {owner : Nat} {m : Nat → Reader α}
    (hm : Yields E n (T.enter owner).2 (m (T.enter owner).1) ts after a ds U)
    (hleave : U.leave = some V) : Yields E n T (inScope owner m) ts after a ds V := by
  intro s hs
  refine .bind (.enterScope fun x => ?_)
  have hentered := hm ⟨s.stream.noted x, (T.enter owner).2, n⟩
    ⟨hs.clear, hs.faultless, rfl, rfl, hs.ahead⟩
  rw [hs.symbols, hs.nesting]
  refine .bind (hentered.post ?_)
  rintro _ t ⟨rfl, ht, hsince⟩
  refine .bind (.leaveScope (ht.symbols ▸ hleave) fun y => .pure ⟨rfl, ?_, ?_⟩)
  · exact ⟨ht.clear, ht.faultless, ht.nesting, rfl, ht.ahead⟩
  · exact ⟨hsince.reports, hsince.rules⟩

/-! ### Rule brackets -/

/-- What is read inside a rule, before a token that can follow the rule. -/
theorem Yields.inside {rule : String} {s : ReaderState} (hm : Yields E n T m ts after a ds U)
    (hend : nextKind after ∈ recover) (hs : s.Before n T (ts ++ after)) :
    Ends E m (fun b u => u.stream.Clear ∧ u.stream.rules.head? = some rule ∧
      ∀ w, Stream.Ended rule recover u.stream w →
        b = a ∧ (u.withStream w).Before n U after ∧ s.Since ds (u.withStream w))
      (s.withStream (s.stream.opened rule)) := by
  refine (hm (s.withStream (s.stream.opened rule))
    ⟨hs.clear, hs.faultless, hs.nesting, hs.symbols, hs.ahead⟩).post ?_
  rintro _ u ⟨rfl, hu, hsince⟩
  have hrules : u.stream.rules = rule :: s.stream.rules := hsince.rules
  refine ⟨hu.clear, by rw [hrules, List.head?_cons], fun w hw => ?_⟩
  obtain rfl := hw.of_follow (hu.head_kind ▸ hend)
  refine ⟨rfl, ⟨hu.clear, hu.faultless, hu.nesting, hu.symbols, hu.ahead⟩, hsince.reports, ?_⟩
  show u.stream.rules.tail = s.stream.rules
  rw [hrules, List.tail_cons]

theorem Yields.attempt {r : Rule} {placeholder : Location → α} {body : Location → Reader α}
    (hfirst : ts.head? = some t) (hstart : t.kind ∈ r.starts) (hend : nextKind after ∈ recover)
    (hbody : Yields E n T (body t.location) ts after a ds U) :
    Yields E n T (attempt r recover placeholder body) ts after a ds U := by
  intro s hs
  obtain ⟨us, rfl⟩ := List.head?_eq_some_iff.mp hfirst
  have hk : s.stream.head.kind ∈ r.starts := hs.head ▸ hstart
  refine .attempt hs.clear (fun u hu => ?_) fun u hu => ?_
  · obtain rfl := (hu.of_start hk).2
    rw [hs.head]
    exact hbody.inside hend hs
  · exact absurd (hu.of_start hk).1 Bool.false_ne_true

theorem Yields.certainly {r : Rule} {body : Location → Reader α} (hfirst : ts.head? = some t)
    (hstart : t.kind ∈ r.starts) (hend : nextKind after ∈ recover)
    (hbody : Yields E n T (body t.location) ts after a ds U) :
    Yields E n T (certainly r recover body) ts after a ds U := by
  intro s hs
  obtain ⟨us, rfl⟩ := List.head?_eq_some_iff.mp hfirst
  refine .certainly (hs.head ▸ hstart) ?_
  rw [hs.head]
  exact hbody.inside hend hs

/-! ### Loops -/

/-- The turns of a loop from a table and a result: the tokens they take before `after`, and
    the result, the reports and the table that they lead to. -/
inductive Turns (E : Abort → Stream → Prop) (n : Nat) (kinds : KindSet) (turn : α → Reader α)
    (after : List Token) :
    SymbolTable → α → List Token → α → List Diagnostic → SymbolTable → Prop
  | done {T : SymbolTable} {a : α} : Turns E n kinds turn after T a [] a [] T
  | turn {T U V : SymbolTable} {a b c : α} {t : Token} {us vs : List Token}
      {ds ds' : List Diagnostic} (first : us.head? = some t) (start : t.kind ∈ kinds)
      (yields : Yields E n T (turn a) us (vs ++ after) b ds U)
      (more : Turns E n kinds turn after U b vs c ds' V) :
      Turns E n kinds turn after T a (us ++ vs) c (ds ++ ds') V

section

variable {kinds : KindSet} {turn : α → Reader α} {b c : α}

theorem Turns.of_nil (h : Turns E n kinds turn after T a ts c ds U) (hts : ts = []) :
    c = a ∧ ds = [] ∧ U = T := by
  cases h with
  | done => exact ⟨rfl, rfl, rfl⟩
  | turn first start yields more =>
    obtain ⟨rfl, rfl⟩ := List.append_eq_nil_iff.mp hts
    exact absurd first (by simp)

/-- There are enough turns, since each of them takes a token. -/
theorem Turns.repeatWhile (h : Turns E n kinds turn after T a ts c ds U)
    (hafter : nextKind after ∉ kinds) : ∀ scans : List Scan, ts.length ≤ scans.length + 1 →
      Yields E n T (repeatWhile kinds turn scans a) ts after c ds U := by
  have hout : kinds.contains (nextKind after) = false := Bool.eq_false_iff.mpr hafter
  induction h with
  | done =>
    intro scans _
    cases scans <;>
    · refine .headIn ?_
      rw [List.nil_append, hout]
      exact .pure
  | @turn T U V a b c t us vs ds ds' first start yields more ih =>
    intro scans hlength
    have hin : kinds.contains (nextKind (us ++ vs ++ after)) = true := by
      rw [List.append_assoc, nextKind_of_head? first]
      exact start
    have hpos : 0 < us.length := by
      obtain ⟨us', rfl⟩ := List.head?_eq_some_iff.mp first
      exact Nat.succ_pos _
    rw [List.length_append] at hlength
    cases scans with
    | nil =>
      -- no scan is left to count a further turn by, and no token for it to take either
      have hnil : vs = [] := List.eq_nil_of_length_eq_zero (by simp at hlength; omega)
      obtain ⟨rfl, rfl, rfl⟩ := more.of_nil hnil
      refine .headIn ?_
      rw [hin]
      subst hnil
      rw [List.append_nil, List.append_nil]
      exact yields
    | cons _ scans =>
      refine .headIn ?_
      rw [hin]
      exact yields.bind (ih scans (by simp at hlength; omega))

theorem Turns.whileIn (h : Turns E n kinds turn after T a ts c ds U)
    (hafter : nextKind after ∉ kinds) :
    Yields E n T (whileIn kinds turn a) ts after c ds U := by
  intro s hs
  have hlength : ts.length ≤ s.stream.rest.length + 1 := by
    have hahead := s.stream.ahead_length_le
    rw [hs.ahead, List.length_append] at hahead
    omega
  exact .bind (.reads (h.repeatWhile hafter s.stream.rest hlength s hs))

end

open PlZero.Derivation

variable {γ : Type} (tokens : γ → List Token)

theorem tokensBehind_cons {P : Token → Prop} (p : { t // P t } × γ)
    (more : List ({ t // P t } × γ)) :
    tokensBehind tokens (p :: more) = (p.1.val :: tokens p.2) ++ tokensBehind tokens more :=
  List.flatMap_cons

/-- The token behind a part is the next separator, or the one behind all parts. -/
theorem tokensBehind_first {P : Token → Prop} (more : List ({ t // P t } × γ)) (t : Token)
    (rest : List Token) : ∃ v us, tokensBehind tokens more ++ t :: rest = v :: us ∧
      v.location = behind t.location more ∧ (P v ∨ v.kind = t.kind) := by
  cases more with
  | nil => exact ⟨t, rest, rfl, rfl, .inr rfl⟩
  | cons p more => exact ⟨p.1.val, _, rfl, rfl, .inl p.1.property⟩

/-- Behind a part stands what stands behind all of them, or the next separator. -/
theorem tokensBehind_next {kinds : KindSet} (more : List (TokenIn kinds × γ)) :
    tokensBehind tokens more ++ after = after ∨
      nextKind (tokensBehind tokens more ++ after) ∈ kinds := by
  cases more with
  | nil => exact .inl rfl
  | cons p more => exact .inr p.1.property

/-- Parts with separators between them, where the result of a part may depend on the place
    of the token behind it. -/
theorem Yields.separated (tree : Location → γ → α)
    (complaints : γ → List Diagnostic) (P : γ → Prop) {pass : Reader Unit} {part : Reader α}
    {first : γ} {more : List (TokenOf k × γ)} (hnext : t.kind ≠ k) (hfirst : P first)
    (hmore : ∀ p ∈ more, P p.2)
    (hpass : ∀ (u : TokenOf k) (us : List Token), Yields E n T pass [u.val] us () [] T)
    (hpart : ∀ c v us, P c → v.kind = k ∨ v.kind = t.kind →
      Yields E n T part (tokens c) (v :: us) (tree v.location c) (complaints c) T) :
    Yields E n T (separated k pass part) (tokens first ++ tokensBehind tokens more) (t :: rest)
      (tree (behind t.location more) first :: treesBehind tree t.location more)
      (complaints first ++ more.flatMap fun p => complaints p.2) T := by
  have hbefore : ∀ c (more : List (TokenOf k × γ)), P c →
      Yields E n T part (tokens c) (tokensBehind tokens more ++ t :: rest)
        (tree (behind t.location more) c) (complaints c) T := by
    intro c more hc
    obtain ⟨v, us, hv, hl, hk⟩ := tokensBehind_first tokens more t rest
    rw [hv, ← hl]
    exact hpart c v us hc hk
  have hturns : ∀ found, Turns E n {k} (fun found => do pass; return (← part) :: found)
      (t :: rest) T found (tokensBehind tokens more)
      ((treesBehind tree t.location more).reverse ++ found)
      (more.flatMap fun p => complaints p.2) T := by
    clear hfirst
    induction more with
    | nil => exact fun _ => .done
    | cons p more ih =>
      intro found
      obtain ⟨sign, c⟩ := p
      have hc := hbefore c more (hmore _ List.mem_cons_self)
      rw [tokensBehind_cons, treesBehind, List.reverse_cons, List.append_assoc]
      refine .turn rfl (KindSet.mem_braces.mpr sign.property) ?_
        (ih (fun q hq => hmore q (List.mem_cons_of_mem _ hq)) _)
      exact Yields.single (hpass sign _) (.map hc)
  have hwhile := (hturns [tree (behind t.location more) first]).whileIn
    (mt KindSet.mem_braces.mp hnext)
  have hreverse : ((treesBehind tree t.location more).reverse ++
      [tree (behind t.location more) first]).reverse =
      tree (behind t.location more) first :: treesBehind tree t.location more := by simp
  rw [← hreverse]
  exact (hbefore first more hfirst).bind (.map hwhile)

/-- Parts that report nothing, and whose results do not depend on what stands behind them. -/
theorem Yields.separated_quiet (tree : γ → α) (P : γ → Prop)
    {pass : Reader Unit} {part : Reader α} {first : γ} {more : List (TokenOf k × γ)}
    (hnext : t.kind ≠ k) (hfirst : P first) (hmore : ∀ p ∈ more, P p.2)
    (hpass : ∀ (u : TokenOf k) (us : List Token), Yields E n T pass [u.val] us () [] T)
    (hpart : ∀ c v us, P c → v.kind = k ∨ v.kind = t.kind →
      Yields E n T part (tokens c) (v :: us) (tree c) [] T) :
    Yields E n T (Reader.separated k pass part) (tokens first ++ tokensBehind tokens more)
      (t :: rest) (tree first :: more.map fun p => tree p.2) [] T := by
  have h : Yields E n T (Reader.separated k pass part) (tokens first ++ tokensBehind tokens more)
      (t :: rest) (tree first :: treesBehind (fun _ => tree) t.location more)
      ([] ++ more.flatMap fun _ => []) T :=
    .separated tokens (fun _ => tree) (fun _ => []) P hnext hfirst hmore hpass hpart
  have hquiet : (more.flatMap fun _ => ([] : List Diagnostic)) = [] := by simp
  rw [treesBehind_map, hquiet] at h
  exact h

end Reader

end PlZero
