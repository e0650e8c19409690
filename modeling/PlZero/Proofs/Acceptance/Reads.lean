/-
  PlZero/Proofs/Acceptance/Reads.lean
  ===================================
  **What is read without a complaint.**  `Reads m D s` says of a reader that, if it returns
  and reports nothing on the way, the tokens that it took are a list that `D` relates to
  its result.  Nothing is said of a reader that reports something, so a rule that was looked
  for in the wrong place, or left before the wrong token, drops out at once, and what is
  left of each rule of the grammar is the sequence of its parts.
-/
import PlZero.Proofs.Contract.Frame
import PlZero.Proofs.Derivation.Depth

namespace PlZero

/-! ### Streams on which nothing is reported -/

namespace Stream

variable {s t u : Stream} {rule : String} {starts recover : KindSet}

theorem Demanded.quiet {k : Kind} (h : Demanded k s t)
    (hquiet : t.reports.length ≤ s.reports.length) : s.head.kind = k ∧ t = s.consumed := by
  cases h with
  | here hk => exact ⟨hk, rfl⟩
  | missing hk moved => exact absurd hquiet moved.toOnward.not_quiet

theorem Begun.not_abandoned (h : Begun rule starts recover s false t) :
    ¬ t.reports.length ≤ s.reports.length := by
  cases h with
  | lost hk moved waited => exact moved.toOnward.not_quiet

theorem Ended.quiet (h : Ended rule recover s t)
    (hquiet : t.reports.length ≤ s.reports.length) : t = s.closed rule := by
  cases h with
  | here hk => rfl
  | skipped hk moved waited => exact absurd hquiet moved.toOnward.not_quiet

end Stream

/-- One state comes from another, and if nothing was reported in between, the tokens that
    were taken satisfy `D`. -/
structure ReaderState.Took (D : List Token → Prop) (s t : ReaderState) : Prop where
  onward : s.stream.Onward t.stream
  nesting : t.nesting = s.nesting
  tokens : t.stream.reports.length ≤ s.stream.reports.length →
    ∃ ts, D ts ∧ s.stream.ahead = ts ++ t.stream.ahead

namespace ReaderState

variable {D D' : List Token → Prop} {s t u : ReaderState}

theorem Took.refl (h : D []) : s.Took D s := ⟨.refl _, rfl, fun _ => ⟨[], h, rfl⟩⟩

theorem Took.mono (h : s.Took D t) (hD : ∀ ts, D ts → D' ts) : s.Took D' t := by
  refine ⟨h.onward, h.nesting, fun hquiet => ?_⟩
  obtain ⟨ts, hts, hahead⟩ := h.tokens hquiet
  exact ⟨ts, hD ts hts, hahead⟩

theorem Took.trans (h : s.Took D t) (h' : t.Took D' u) :
    s.Took (fun ts => ∃ us vs, D us ∧ D' vs ∧ ts = us ++ vs) u := by
  refine ⟨h.onward.trans h'.onward, h'.nesting.trans h.nesting, fun hquiet => ?_⟩
  have hle := h.onward.reports_le
  have hle' := h'.onward.reports_le
  obtain ⟨us, hus, hahead⟩ := h.tokens (hle'.trans hquiet)
  obtain ⟨vs, hvs, hahead'⟩ := h'.tokens (hquiet.trans hle)
  refine ⟨us ++ vs, ⟨us, vs, hus, hvs, rfl⟩, ?_⟩
  rw [hahead, hahead', List.append_assoc]

/-- A step of the stream that reports nothing of its own takes some tokens or other. -/
theorem Took.moved {v : Stream} (h : s.stream.Moved v) :
    s.Took (fun _ => True) (s.withStream v) := by
  refine ⟨h.toOnward, rfl, fun _ => ?_⟩
  obtain ⟨ts, hts⟩ := h.toOnward.ahead
  exact ⟨ts, trivial, hts.symm⟩

theorem Took.consumed (hk : s.stream.head.kind ≠ .endOfFile) :
    s.Took (fun ts => ts = [s.stream.head]) (s.withStream s.stream.consumed) := by
  refine ⟨(Stream.Moved.consumed _).toOnward, rfl, fun _ => ⟨_, rfl, ?_⟩⟩
  show _ = _ ++ s.stream.consumed.ahead
  rw [Stream.ahead_consumed, Stream.ahead_of_ne hk]
  rfl

end ReaderState

namespace Reader

open PlZero.Derivation

/-- If a reader returns without having reported anything, the tokens that it took are such
    a list as `D` says of its result. -/
def Reads {α : Type} (m : Reader α) (D : α → List Token → Prop) (s : ReaderState) : Prop :=
  s.stream.Clear → Ends (fun _ _ => True) m (fun a t => s.Took (D a) t) s

variable {α β : Type} {D D' : α → List Token → Prop} {B : α → β → List Token → Prop}
  {m : Reader α} {f : α → Reader β} {s : ReaderState} {recover : KindSet} {k : Kind}

/-! ### Logic -/

theorem Reads.pure {a : α} : Reads (pure a) (fun _ ts => ts = []) s := fun _ => .pure (.refl rfl)

theorem Reads.mono (h : Reads m D s) (hD : ∀ a ts, D a ts → D' a ts) : Reads m D' s :=
  fun hs => (h hs).post fun a _ ha => ha.mono (hD a)

theorem Reads.bind (hm : Reads m D s)
    (hf : ∀ a (t : ReaderState), t.nesting = s.nesting → Reads (f a) (B a) t) :
    Reads (m >>= f) (fun b ts => ∃ a us vs, D a us ∧ B a b vs ∧ ts = us ++ vs) s := by
  intro hs
  refine .bind ((hm hs).post fun a t ht => ?_)
  refine (hf a t ht.nesting (ht.onward.clear hs)).post fun b u hu => ?_
  refine (ht.trans hu).mono ?_
  rintro ts ⟨us, vs, hus, hvs, rfl⟩
  exact ⟨a, us, vs, hus, hvs, rfl⟩

/-- Looking something up takes no token. -/
theorem Reads.look {look : ReaderState → α} {D : β → List Token → Prop}
    (h : Reads (f (look s)) D s) : Reads (reads look >>= f) D s :=
  fun hs => .bind (.reads (h hs))

theorem Reads.tooDeep : Reads (tooDeep : Reader α) D s := fun _ => .tooDeep fun _ => trivial

/-! ### The stream -/

/-- Reading the name of the head token takes no token. -/
theorem Reads.name {f : String → Reader β} {D : β → List Token → Prop}
    (hk : s.stream.head.kind = .identifier) (h : ∀ x, Reads (f x) D s) :
    Reads (name >>= f) D s :=
  fun hs => .bind (.name hk (h _ hs))

/-- Reading the value of the head token takes no token. -/
theorem Reads.number {f : Int → Reader β} {D : β → List Token → Prop}
    (hk : s.stream.head.kind = .number) (h : ∀ x, Reads (f x) D s) :
    Reads (number >>= f) D s :=
  fun hs => .bind (.number hk (h _ hs))

theorem Reads.expect (hk : s.stream.head.kind = k) (hne : k ≠ .endOfFile) :
    Reads (expect k) (fun _ ts => ∃ t : TokenOf k, ts = [t.val]) s :=
  fun hs => .expect hs hk ((ReaderState.Took.consumed (hk ▸ hne)).mono fun _ hts =>
    ⟨⟨_, hk⟩, hts⟩)

/-- The head token is taken. -/
theorem Reads.expect_head {K : KindSet} (hk : s.stream.head.kind ∈ K)
    (hne : .endOfFile ∉ K) :
    Reads (Reader.expect s.stream.head.kind) (fun _ ts => ∃ t : TokenIn K, ts = [t.val]) s :=
  fun hs => .expect hs rfl ((ReaderState.Took.consumed (ne_of_mem_of_not_mem hk hne)).mono
    fun _ hts => ⟨⟨_, hk⟩, hts⟩)

theorem Reads.demand {follow : KindSet} (hne : k ≠ .endOfFile) :
    Reads (demand k follow) (fun _ ts => ∃ t : TokenOf k, ts = [t.val]) s := by
  refine fun hs => .demand hs fun u hu => ⟨hu.moved.toOnward, rfl, fun hquiet => ?_⟩
  obtain ⟨hk, rfl⟩ := hu.quiet hquiet
  exact ((ReaderState.Took.consumed (hk ▸ hne)).mono fun _ hts => ⟨⟨_, hk⟩, hts⟩).tokens hquiet

theorem Reads.report {p : Problem} {l : Location} :
    Reads (report p l) (fun _ _ => False) s :=
  fun _ => .report ⟨.report _ _ _, rfl, fun hquiet =>
    absurd hquiet (by simp [ReaderState.withStream])⟩

theorem Reads.reportUnless {holds : Prop} [Decidable holds] {p : Problem} {l : Location} :
    Reads (reportUnless holds p l) (fun _ ts => ts = []) s := by
  unfold Reader.reportUnless
  by_cases h : holds
  · rw [if_pos h]
    exact .pure
  · rw [if_neg h]
    exact Reads.report.mono fun _ _ h => h.elim

theorem Reads.skipTo {find : KindSet} : Reads (skipTo find) (fun _ _ => True) s :=
  fun hs => .skipTo hs fun _ hu _ => .moved hu

theorem Reads.skipParenthesised :
    Reads (onStream Stream.skipParenthesised) (fun _ _ => True) s :=
  fun hs => .skipParenthesised hs fun _ hu => .moved hu

theorem Reads.note {x : Note} : Reads (note x) (fun _ ts => ts = []) s :=
  fun _ => .modify ⟨(Stream.Moved.noted _ x).toOnward, rfl, fun _ => ⟨[], rfl, rfl⟩⟩

theorem Reads.setSymbols {table : SymbolTable} :
    Reads (modify fun s => { s with symbols := table }) (fun _ ts => ts = []) s :=
  fun _ => .modify ⟨.refl _, rfl, fun _ => ⟨[], rfl, rfl⟩⟩

/-! ### Nesting -/

theorem Reads.deeper (h : ∀ t : ReaderState, t.nesting = s.nesting + 1 → Reads m D t) :
    Reads (deeper m) D s := by
  intro hs
  refine .deeper ((h s.deepened rfl hs).post fun a t ht => ⟨ht.onward, ?_, ht.tokens⟩)
  show t.nesting - 1 = s.nesting
  rw [ht.nesting]
  exact Nat.add_sub_cancel s.nesting 1

/-! ### Rule brackets -/

theorem Reads.closing {rule : String} {v : Stream} {t : ReaderState} {a : α}
    (hs : s.stream.Onward v) (hquiet : v.reports.length ≤ s.stream.reports.length → v = s.stream)
    (hclear : v.Clear) (ht : (s.withStream (v.opened rule)).Took (D a) t) :
    t.stream.Clear ∧ t.stream.rules.head? = some rule ∧
      ∀ w, Stream.Ended rule recover t.stream w → s.Took (D a) (t.withStream w) := by
  refine ⟨ht.onward.clear hclear, ?_, fun w hw => ?_⟩
  · rw [ht.onward.rules]
    rfl
  · have hclosed := hw.moved.1.toOnward
    have hbracket := ht.onward.bracket hclosed
    -- if nothing was reported in all, then neither on the way in nor on the way out
    refine ⟨hs.trans hbracket, ht.nesting, fun hle => ?_⟩
    obtain rfl := hquiet (hbracket.reports_le.trans hle)
    have hle' : w.reports.length ≤ t.stream.reports.length := hle.trans ht.onward.reports_le
    obtain rfl := hw.quiet hle'
    exact ht.tokens hle

theorem Reads.attempt {r : Rule} {placeholder : Location → α} {body : Location → Reader α}
    (hbody : ∀ l (t : ReaderState), t.nesting = s.nesting → t.stream.head.kind ∈ r.starts →
      Reads (body l) D t) : Reads (attempt r recover placeholder body) D s := by
  intro hs
  refine .attempt hs ?_ ?_
  · intro u hu
    obtain ⟨v, hmoved, hstart, rfl, hquiet⟩ := hu.entered
    have hclear := hmoved.toOnward.clear hs
    refine (hbody _ (s.withStream (v.opened r.title)) rfl hstart hclear).post fun a t ht => ?_
    exact Reads.closing hmoved.toOnward hquiet hclear ht
  · intro u hu
    exact ⟨hu.abandoned.1.toOnward, rfl, fun hquiet => absurd hquiet hu.not_abandoned⟩

theorem Reads.certainly {r : Rule} {body : Location → Reader α}
    (hstart : s.stream.head.kind ∈ r.starts)
    (hbody : ∀ l (t : ReaderState), t.nesting = s.nesting → t.stream.head.kind ∈ r.starts →
      Reads (body l) D t) : Reads (certainly r recover body) D s := by
  intro hs
  refine .certainly hstart ?_
  refine (hbody _ (s.withStream (s.stream.opened r.title)) rfl hstart hs).post fun a t ht => ?_
  exact Reads.closing (.refl _) (fun _ => rfl) hs ht

/-! ### Loops -/

/-- The parts that the turns of a loop read, one after another. -/
theorem Reads.whileIn {γ : Type} {kinds : KindSet} {turn : α → Reader α} {a : α}
    {T : γ → List Token} {P : γ → Prop}
    (hturn : ∀ b (t : ReaderState), t.nesting = s.nesting → t.stream.head.kind ∈ kinds →
      Reads (turn b) (fun _ ts => ∃ p, P p ∧ ts = T p) t) :
    Reads (whileIn kinds turn a)
      (fun _ ts => ∃ parts : List γ, (∀ p ∈ parts, P p) ∧ ts = parts.flatMap T) s := by
  intro hs
  refine .whileIn (I := fun _ t => s.Took
    (fun ts => ∃ parts : List γ, (∀ p ∈ parts, P p) ∧ ts = parts.flatMap T) t) ?_ ?_
  · exact .refl ⟨[], by simp, rfl⟩
  · intro b t ht hin
    refine (hturn b t ht.nesting hin (ht.onward.clear hs)).post fun c u hu => ?_
    refine (ht.trans hu).mono ?_
    rintro ts ⟨us, vs, ⟨parts, hparts, rfl⟩, ⟨p, hp, rfl⟩, rfl⟩
    refine ⟨parts ++ [p], ?_, by simp⟩
    intro q hq
    rcases List.mem_append.mp hq with hq | hq
    · exact hparts q hq
    · exact List.mem_singleton.mp hq ▸ hp

theorem Reads.separated {γ : Type} {pass : Reader Unit} {part : Reader α}
    {tokens : γ → List Token} {P : γ → Prop}
    (hpass : ∀ t : ReaderState, t.stream.head.kind = k →
      Reads pass (fun _ ts => ∃ sign : TokenOf k, ts = [sign.val]) t)
    (hpart : ∀ t : ReaderState, t.nesting = s.nesting →
      Reads part (fun _ ts => ∃ p, P p ∧ ts = tokens p) t) :
    Reads (separated k pass part) (fun _ ts => ∃ (first : γ) (more : List (TokenOf k × γ)),
      P first ∧ (∀ p ∈ more, P p.2) ∧ ts = tokens first ++ tokensBehind tokens more) s := by
  refine ((hpart s rfl).bind fun a t ht => (Reads.whileIn (γ := TokenOf k × γ)
    (P := fun p => P p.2) (T := fun p => p.1.val :: tokens p.2) fun b u hu hin => ?_).bind
      fun _ _ _ => .pure).mono ?_
  · refine ((hpass u (KindSet.mem_braces.mp hin)).bind fun _ v hv =>
      (hpart v ?_).bind fun _ _ _ => .pure).mono ?_
    · rw [hv, hu, ht]
    · rintro _ _ ⟨_, _, _, ⟨sign, rfl⟩, ⟨_, _, _, ⟨p, hp, rfl⟩, rfl, rfl⟩, rfl⟩
      exact ⟨(sign, p), hp, by simp⟩
  · rintro _ _ ⟨_, _, _, ⟨first, hfirst, rfl⟩, ⟨_, _, _, ⟨more, hmore, rfl⟩, rfl, rfl⟩, rfl⟩
    exact ⟨first, more, hfirst, hmore, by simp [tokensBehind]⟩

/-! ### Declarations and scopes -/

theorem Reads.declared {what : Declared} {x : String} {l : Location}
    {outcome : Option (Entry × SymbolTable)} :
    Reads (declared what x l outcome) (fun _ ts => ts = []) s := by
  cases outcome with
  | none =>
    refine (Reads.report.bind fun _ _ _ => .pure).mono ?_
    rintro _ _ ⟨_, _, _, h, _⟩
    exact h.elim
  | some r =>
    obtain ⟨entry, table⟩ := r
    refine (Reads.setSymbols.bind fun _ _ _ => .pure).mono ?_
    rintro _ _ ⟨_, _, _, rfl, rfl, rfl⟩
    rfl

theorem Reads.inScope {owner : Nat} {m : Nat → Reader α}
    (hm : ∀ scope (t : ReaderState), t.nesting = s.nesting → Reads (m scope) D t) :
    Reads (inScope owner m) D s := by
  intro hs
  refine .bind (.enterScope fun x => .bind ((hm _ ⟨s.stream.noted x, _, s.nesting⟩ rfl hs).post
    fun a t ht => ?_))
  have hon := (Stream.Moved.noted s.stream x).toOnward
  refine .bind ?_
  cases hleave : t.symbols.leave with
  | none =>
    refine .bind (.reads ?_)
    rw [hleave]
    exact trivial
  | some outer =>
    refine .leaveScope hleave fun y => .pure ⟨?_, ht.nesting, ht.tokens⟩
    exact hon.trans (ht.onward.trans (Stream.Moved.noted t.stream y).toOnward)

end Reader

end PlZero
