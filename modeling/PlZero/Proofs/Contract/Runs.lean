/-
  PlZero/Proofs/Contract/Runs.lean
  ================================
  **Rules for the frame.**  `Runs n E L m Q s` says of a reader and a sound state that the
  reader ends as `E` admits, or in a sound state in which everything is kept and with a
  result that satisfies `Q`.  There is one rule for every way to build a reader; the rules
  for the two brackets and for scopes carry the argument that what was opened is closed.
-/
import PlZero.Proofs.Contract.Frame
import PlZero.Proofs.Reading.Leaves

namespace PlZero.Reader

/-- A reader ends as `E` admits, or keeps what it has to keep and its result satisfies `Q`. -/
def Runs {α : Type} (n : Nat) (E : Abort → Stream → Prop) (L : Location → Prop) (m : Reader α)
    (Q : α → ReaderState → Prop) (s : ReaderState) : Prop :=
  s.Sound L → n ≤ s.symbols.entries.size →
    Ends E m (fun a t => s.Kept n t ∧ t.Sound L ∧ Q a t) s

variable {α β : Type} {n : Nat} {E : Abort → Stream → Prop} {L : Location → Prop}
  {Q Q' : α → ReaderState → Prop} {R : β → ReaderState → Prop} {P : α → Prop}
  {m : Reader α} {f : α → Reader β} {s : ReaderState} {recover : KindSet}

/-! ### Logic -/

theorem Runs.pure {a : α} (h : Q a s) : Runs n E L (pure a) Q s :=
  fun hs _ => .pure ⟨.refl n s, hs, h⟩

theorem Runs.bind (hm : Runs n E L m Q s)
    (hf : ∀ a t, s.Kept n t → Q a t → Runs n E L (f a) R t) : Runs n E L (m >>= f) R s := by
  intro hs hn
  refine .bind ((hm hs hn).post ?_)
  rintro a t ⟨hk, ht, hQ⟩
  refine (hf a t hk hQ ht (Nat.le_trans hn hk.symbols.entryCount)).post ?_
  rintro b u ⟨hk', hu, hR⟩
  exact ⟨hk.trans hk', hu, hR⟩

theorem Runs.post (h : Runs n E L m Q s) (hQ : ∀ a t, s.Kept n t → Q a t → Q' a t) :
    Runs n E L m Q' s := by
  intro hs hn
  refine (h hs hn).post ?_
  rintro a t ⟨hk, ht, ha⟩
  exact ⟨hk, ht, hQ a t hk ha⟩

/-- What a reader leaves in the table on any input, it leaves from a sound state. -/
theorem Runs.leaving {T : α → SymbolTable → Prop} (h : Runs n E L m Q s)
    (hleaves : Leaves s.symbols m T) : Runs n E L m (fun a t => Q a t ∧ T a t.symbols) s := by
  intro hs hn
  refine ((h hs hn).and (hleaves s rfl)).mono (fun _ _ he => he.1) ?_
  rintro a t ⟨⟨hk, ht, hQ⟩, hT⟩
  exact ⟨hk, ht, hQ, hT⟩

/-- Looking something up changes nothing. -/
theorem Runs.look {look : ReaderState → α} (h : s.Sound L → Runs n E L (f (look s)) R s) :
    Runs n E L (reads look >>= f) R s :=
  fun hs hn => .bind (.reads (h hs hs hn))

theorem Runs.tooDeep (h : AdmitsTooDeep E) : Runs n E L (tooDeep : Reader α) Q s :=
  fun _ _ => .tooDeep h

/-! ### The stream -/

theorem Runs.name {f : String → Reader β} (hk : s.stream.head.kind = .identifier)
    (hf : ∀ x, Runs n E L (f x) R s) : Runs n E L (name >>= f) R s :=
  fun hs hn => .bind (.name hk (hf _ hs hn))

theorem Runs.number {f : Int → Reader β} (hk : s.stream.head.kind = .number)
    (hf : ∀ x, Runs n E L (f x) R s) : Runs n E L (number >>= f) R s :=
  fun hs hn => .bind (.number hk (hf _ hs hn))

theorem Runs.expect {k : Kind} (hk : s.stream.head.kind = k) :
    Runs n E L (expect k) (fun _ _ => True) s :=
  fun hs _ => .expect hs.clear hk ⟨.moved (.consumed _), hs.moved (.consumed _), trivial⟩

theorem Runs.demand {k : Kind} {follow : KindSet} :
    Runs n E L (demand k follow) (fun _ _ => True) s :=
  fun hs _ => .demand hs.clear fun _ hu => ⟨.moved hu.moved, hs.moved hu.moved, trivial⟩

theorem Runs.skipTo {find : KindSet} : Runs n E L (skipTo find) (fun _ _ => True) s :=
  fun hs _ => .skipTo hs.clear fun _ hu _ => ⟨.moved hu, hs.moved hu, trivial⟩

theorem Runs.skipParenthesised :
    Runs n E L (onStream Stream.skipParenthesised) (fun _ _ => True) s :=
  fun hs _ => .skipParenthesised hs.clear fun _ hu => ⟨.moved hu, hs.moved hu, trivial⟩

theorem Runs.report {p : Problem} {l : Location} (hl : L l) :
    Runs n E L (report p l) (fun _ _ => True) s := by
  intro hs hn
  refine .report ⟨⟨.report s.stream p l, .refl _ _, rfl⟩, ?_, trivial⟩
  exact ⟨hs.clear, hs.within.report p hl, hs.entries, hs.opened, hs.nesting⟩

theorem Runs.reportUnless {holds : Prop} [Decidable holds] {p : Problem} {l : Location}
    (hl : L l) : Runs n E L (reportUnless holds p l) (fun _ _ => True) s := by
  unfold Reader.reportUnless
  by_cases h : holds
  · rw [if_pos h]
    exact .pure trivial
  · rw [if_neg h]
    exact .report hl

theorem Runs.note {x : Note} :
    Runs n E L (note x) (fun _ t => t.stream.head = s.stream.head) s :=
  fun hs _ => .modify ⟨.moved (.noted _ x), hs.moved (.noted _ x), rfl⟩

/-! ### Nesting -/

theorem Runs.deeper (hlimit : s.nesting < Grammar.maxNesting)
    (hm : ∀ t : ReaderState, t.nesting = s.nesting + 1 → Runs n E L m (fun a _ => P a) t) :
    Runs n E L (deeper m) (fun a _ => P a) s := by
  intro hs hn
  refine .deeper ((hm s.deepened rfl
    ⟨hs.clear, hs.within, hs.entries, hs.opened, hlimit⟩ hn).post ?_)
  rintro a t ⟨hk, ht, hP⟩
  have hnesting : t.nesting - 1 = s.nesting := by
    rw [hk.nesting]
    exact Nat.add_sub_cancel s.nesting 1
  exact ⟨⟨hk.onward, hk.symbols, hnesting⟩,
    ⟨ht.clear, ht.within, ht.entries, ht.opened, hnesting ▸ hs.nesting⟩, hP⟩

/-! ### Rule brackets -/

/-- The end of a rule closes what its beginning opened. -/
theorem Runs.closing {rule : String} {v : Stream} {t : ReaderState} {a : α} (hs : s.stream.Moved v)
    (hk : (s.withStream (v.opened rule)).Kept n t) (ht : t.Sound L) (ha : P a) :
    t.stream.Clear ∧ t.stream.rules.head? = some rule ∧
      ∀ w, Stream.Ended rule recover t.stream w →
        s.Kept n (t.withStream w) ∧ (t.withStream w).Sound L ∧
          (P a ∧ (t.withStream w).Waits recover) := by
  refine ⟨ht.clear, ?_, ?_⟩
  · rw [hk.onward.rules]
    rfl
  · intro w hw
    obtain ⟨hmoved, hwaits⟩ := hw.moved
    refine ⟨⟨hs.toOnward.trans (.bracket hk.onward hmoved.toOnward), hk.symbols, hk.nesting⟩,
      ⟨?_, ?_, ht.entries, ht.opened, ht.nesting⟩, ha, hwaits⟩
    · exact hmoved.toOnward.clear ht.clear
    · exact hmoved.within L ht.within.closed

theorem Runs.attempt {r : Rule} {placeholder : Location → α} {body : Location → Reader α}
    (hlost : ∀ l, L l → P (placeholder l))
    (hbody : ∀ l (t : ReaderState), L l → t.nesting = s.nesting →
      t.stream.head.kind ∈ r.starts → Runs n E L (body l) (fun a _ => P a) t) :
    Runs n E L (attempt r recover placeholder body) (fun a t => P a ∧ t.Waits recover) s := by
  intro hs hn
  refine .attempt hs.clear ?_ ?_
  · intro u hu
    obtain ⟨v, hmoved, hstart, rfl, -⟩ := hu.entered
    have hv := hs.moved hmoved
    refine (hbody _ (s.withStream (v.opened r.title)) hs.within.head rfl hstart
      ⟨hv.clear, hv.within.opened, hv.entries, hv.opened, hv.nesting⟩ hn).post ?_
    rintro a t ⟨hk, ht, ha⟩
    exact Runs.closing hmoved hk ht ha
  · intro u hu
    obtain ⟨hmoved, hwaits⟩ := hu.abandoned
    exact ⟨.moved hmoved, hs.moved hmoved, hlost _ hs.within.head, hwaits⟩

theorem Runs.certainly {r : Rule} {body : Location → Reader α}
    (hstart : s.stream.head.kind ∈ r.starts)
    (hbody : ∀ l (t : ReaderState), L l → t.nesting = s.nesting →
      t.stream.head.kind ∈ r.starts → Runs n E L (body l) (fun a _ => P a) t) :
    Runs n E L (certainly r recover body) (fun a t => P a ∧ t.Waits recover) s := by
  intro hs hn
  refine .certainly hstart ((hbody _ (s.withStream (s.stream.opened r.title)) hs.within.head
    rfl hstart ⟨hs.clear, hs.within.opened, hs.entries, hs.opened, hs.nesting⟩ hn).post ?_)
  rintro a t ⟨hk, ht, ha⟩
  exact Runs.closing (.refl _) hk ht ha

/-! ### Loops -/

theorem Runs.whileIn {kinds : KindSet} {turn : α → Reader α} {a : α} (ha : P a)
    (hturn : ∀ b (t : ReaderState), P b → t.nesting = s.nesting → t.stream.head.kind ∈ kinds →
      Runs n E L (turn b) (fun c _ => P c) t) :
    Runs n E L (whileIn kinds turn a) (fun b _ => P b) s := by
  intro hs hn
  refine .whileIn (I := fun b t => s.Kept n t ∧ t.Sound L ∧ P b) ⟨.refl n s, hs, ha⟩ ?_
  rintro b t ⟨hk, ht, hb⟩ hin
  refine (hturn b t hb hk.nesting hin ht (Nat.le_trans hn hk.symbols.entryCount)).post ?_
  rintro c u ⟨hk', hu, hc⟩
  exact ⟨hk.trans hk', hu, hc⟩

theorem Runs.separated {sign : Kind} {pass : Reader Unit} {part : Reader α}
    (hpass : ∀ t : ReaderState, t.stream.head.kind = sign →
      Runs n E L pass (fun _ _ => True) t)
    (hpart : ∀ t : ReaderState, t.nesting = s.nesting → Runs n E L part (fun a _ => P a) t) :
    Runs n E L (separated sign pass part) (fun as _ => as ≠ [] ∧ ∀ a ∈ as, P a) s := by
  refine .bind (hpart s rfl) fun first s₁ h₁ hfirst => ?_
  refine .bind (.whileIn (P := fun found => found ≠ [] ∧ ∀ a ∈ found, P a) ?_ ?_)
    fun found s₂ _ hfound => ?_
  · simpa using hfirst
  · intro found t hfound hnesting hin
    refine .bind (hpass t (KindSet.mem_singleton.mp hin)) fun _ t₁ h₂ _ => ?_
    have hstart : t₁.nesting = s.nesting := by rw [h₂.nesting, hnesting, h₁.nesting]
    refine .bind (hpart t₁ hstart) fun a t₂ _ ha => ?_
    exact .pure (by simpa using ⟨ha, hfound.2⟩)
  · exact .pure (by simpa using hfound)

/-! ### Declarations and scopes -/

/-- A table that takes the place of another. -/
theorem Runs.setSymbols {table : SymbolTable} {Q : Unit → ReaderState → Prop}
    (hk : n ≤ s.symbols.entries.size → s.symbols.Kept n table)
    (he : s.Sound L → ∀ i e, SymbolTable.mainIndex < i → table.entries[i]? = some e → e.Proper L)
    (h : Q () { s with symbols := table }) :
    Runs n E L (modify fun s => { s with symbols := table }) Q s :=
  fun hs hn => .modify ⟨⟨.refl _, hk hn, rfl⟩,
    ⟨hs.clear, hs.within, he hs, (hk hn).opened hs.opened, hs.nesting⟩, h⟩

/-- An entry that is added to those of a sound state. -/
theorem entries_push (hs : s.Sound L) {e : Entry} (he : e.Proper L) :
    ∀ i x, SymbolTable.mainIndex < i → (s.symbols.entries.push e)[i]? = some x →
      x.Proper L := by
  intro i x hi hx
  rw [Array.getElem?_push] at hx
  split at hx
  · obtain rfl := Option.some.inj hx
    exact he
  · exact hs.entries i x hi hx

/-- The outcome of a declaration is that the name is taken, or that it is added. -/
theorem Runs.declared {what : Declared} {name : String} {l : Location}
    {outcome : Option (Entry × SymbolTable)} (hl : L l)
    (hadd : ∀ r, outcome = some r →
      ∃ meaning : Meaning, meaning.Proper L ∧ r = s.symbols.add name l meaning) :
    Runs n E L (declared what name l outcome)
      (fun added _ => ∀ e, added = some e → n ≤ e.index) s := by
  cases outcome with
  | none => exact .bind (.report hl) fun _ _ _ _ => .pure (by simp)
  | some r =>
    obtain ⟨meaning, hm, rfl⟩ := hadd r rfl
    intro hs hn
    refine Runs.bind (Q := fun _ _ => True) (.setSymbols (fun hn => s.symbols.add_kept hn _ _ _)
      (fun hs => entries_push hs ⟨hl, hm⟩) trivial) (fun _ t _ _ => .pure ?_) hs hn
    intro e he
    obtain rfl := Option.some.inj he
    exact hn

/-- What is read in a scope of its own leaves the open scopes as they were. -/
theorem Runs.inScope {owner : Nat} {m : Nat → Reader α} {P : α → Token → Prop}
    (howner : n ≤ owner)
    (hm : ∀ scope (t : ReaderState), t.nesting = s.nesting →
      Runs n E L (m scope) (fun a t => P a t.stream.head) t) :
    Runs n E L (inScope owner m) (fun a t => P a t.stream.head) s := by
  intro hs hn
  refine .bind (.enterScope fun x => ?_)
  let entered : ReaderState := ⟨s.stream.noted x, (s.symbols.enter owner).2, s.nesting⟩
  have hentries : ∀ i e, SymbolTable.mainIndex < i →
      entered.symbols.entries[i]? = some e → e.Proper L := by
    intro i e hi he
    have he' : (s.symbols.entries.modify owner
        (SymbolTable.withLocalScope (s.symbols.enter owner).1))[i]? = some e := he
    rw [Array.getElem?_modify] at he'
    split at he'
    · obtain ⟨e', he'', rfl⟩ := Option.map_eq_some_iff.mp he'
      exact (hs.entries i e' hi he'').withLocalScope _
    · exact hs.entries i e hi he'
  have hentered : entered.Sound L :=
    ⟨hs.clear, (Stream.Moved.noted _ x).within L hs.within, hentries, hs.opened.enter owner,
      hs.nesting⟩
  have hcount : n ≤ entered.symbols.entries.size := by
    show n ≤ (s.symbols.entries.modify _ _).size
    rw [Array.size_modify]
    exact hn
  refine .bind ((hm _ entered rfl hentered hcount).post ?_)
  rintro a t ⟨hk, ht, ha⟩
  obtain ⟨outer, hleave, houter, hkept⟩ := SymbolTable.Kept.inside howner hk.symbols
  refine .bind (.leaveScope hleave fun y => .pure ⟨⟨?_, hkept, hk.nesting⟩, ?_, ha⟩)
  · exact (Stream.Moved.noted _ x).toOnward.trans
      (hk.onward.trans (Stream.Moved.noted _ y).toOnward)
  · exact ⟨ht.clear, (Stream.Moved.noted _ y).within L ht.within, houter ▸ ht.entries,
      hkept.opened hs.opened, ht.nesting⟩

end PlZero.Reader
