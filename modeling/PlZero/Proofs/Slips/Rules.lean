/-
  PlZero/Proofs/Slips/Rules.lean
  ==============================
  **Rules for readers of a script.**  A state of the second run is `Loose` where strays may stand
  before the next token, and `Settled` where none do.  Rules and tokens are looked for in loose
  states; a rule that is left, and one that is chosen by the head token, is in a settled one.
-/
import PlZero.Proofs.Progress.Loops
import PlZero.Proofs.Slips.Beside
import PlZero.Proofs.Slips.Mends

namespace PlZero

/-! ### States of two runs -/

/-- Two states at a place of a script of which `P` holds. -/
def Standing (D : Draft) (lead : Lead) (P : List Stroke → Prop) (s s' : ReaderState) : Prop :=
  ∃ script, P script ∧ Beside D lead script s s'

/-- Strays may stand before the next token. -/
abbrev Loose (D : Draft) (lead : Lead) : ReaderState → ReaderState → Prop :=
  Standing D lead fun _ => True

/-- No strays stand before the next token, which is of a kind in `K`. -/
abbrev Settled (D : Draft) (lead : Lead) (K : KindSet) : ReaderState → ReaderState → Prop :=
  Standing D lead (At K)

/-- A set in which a reader looks neither for strays nor for what is mistyped. -/
def Calm (K : KindSet) : Prop := .illegal ∉ K ∧ .assign ∉ K

instance : DecidablePred Calm := fun _ => inferInstanceAs (Decidable (_ ∧ _))

theorem Calm.union {K K' : KindSet} (h : Calm K) (h' : Calm K') : Calm (K ∪ K') := by
  simp only [Calm, KindSet.mem_union, not_or]
  exact ⟨⟨h.1, h'.1⟩, h.2, h'.2⟩

/-- A token of a kind in a set cannot have been mistyped or left out. -/
def Plain (lead : Lead) (K : KindSet) : Prop := .assign ∉ K ∧ lead ≠ .head

instance (lead : Lead) : DecidablePred (Plain lead) :=
  fun _ => inferInstanceAs (Decidable (_ ∧ _))

theorem Calm.plain {K : KindSet} (h : Calm K) : Plain .nothing K := ⟨h.2, nofun⟩

theorem Rule.starts_calm (r : Rule) : Calm r.starts := by
  cases r <;> decide

/-- A set of kinds before which a rule may be left: not before strays, before what stands for
    `:=` if before `:=`, and before a block if before the `=` that leads to it. -/
structure Tolerates (lead : Lead) (K : KindSet) : Prop where
  illegal : .illegal ∉ K
  assign : .assign ∈ K → .equals ∈ K
  head : lead = .head → .equals ∈ K → ∀ k ∈ Starts.block, k ∈ K

theorem Calm.tolerates {K : KindSet} (h : Calm K) : Tolerates .nothing K :=
  ⟨h.1, fun hassign => absurd hassign h.2, nofun⟩

namespace Standing

variable {D : Draft} {lead : Lead} {P P' : List Stroke → Prop} {K K' : KindSet}
  {s s' : ReaderState}

theorem mono (h : Standing D lead P s s') (hP : ∀ script, P script → P' script) :
    Standing D lead P' s s' := by
  obtain ⟨script, hscript, hs⟩ := h
  exact ⟨script, hP script hscript, hs⟩

theorem loose (h : Standing D lead P s s') : Loose D lead s s' := h.mono fun _ _ => trivial

theorem settled_mono (h : Settled D lead K s s') (hK : ∀ k ∈ K, k ∈ K') :
    Settled D lead K' s s' := by
  apply h.mono
  rintro script ⟨stroke, hfirst, hstrays, hkind⟩
  exact ⟨stroke, hfirst, hstrays, hK _ hkind⟩

/-- Where a token of the set cannot have been mistyped or left out, it stands in both runs. -/
theorem exact (h : Settled D lead K s s') (hplain : Plain lead K) :
    ∃ t script, t.kind ∈ K ∧ Beside D lead (.plain [] t :: script) s s' := by
  obtain ⟨script, ⟨stroke, hfirst, hstrays, hkind⟩, hs⟩ := h
  obtain ⟨more, rfl⟩ := List.head?_eq_some_iff.mp hfirst
  have hmeant := hs.careful.1.exact hstrays (fun hk => hplain.1 (hk ▸ hkind)) hplain.2
  exact ⟨stroke.meant, more, hkind, hmeant ▸ hs⟩

theorem head_eq (h : Settled D lead K s s') (hplain : Plain lead K) :
    s'.stream.head = s.stream.head ∧ s.stream.head.kind ∈ K := by
  obtain ⟨t, script, hkind, hs⟩ := h.exact hplain
  have hhead : s.stream.head = t := hs.meant.head
  have hhead' : s'.stream.head = t := hs.typed.head
  rw [hhead, hhead']
  exact ⟨rfl, hkind⟩

/-- Behind `procedure` and `call` no strays stand. -/
theorem names (h : Loose D lead s s') (hlead : lead.Names) : Settled D lead {.identifier} s s' := by
  obtain ⟨script, -, hs⟩ := h
  obtain ⟨stroke, more, rfl, -⟩ := hs.cons
  have hkind : stroke.meant.kind = .identifier := hs.follows.1 hlead
  refine ⟨_, ⟨stroke, rfl, ?_, KindSet.mem_braces.mpr hkind⟩, hs⟩
  cases stroke with
  | plain strays t => exact hs.careful.1.2.1 hlead
  | mistyped m t => rfl
  | dropped m => rfl

end Standing

namespace Reader

variable {α : Type} {D : Draft} {lead lead' : Lead} {P P' : List Stroke → Prop} {K K' : KindSet}
  {Q : α → α → Prop} {m m' : Reader α} {k : Kind} {recover follow : KindSet}
  {R R' : ReaderState → ReaderState → Prop}

theorem Mends.of_loose (h : Mends (Loose D lead) R' Q m m') : Mends (Standing D lead P) R' Q m m' :=
  h.mono (fun _ _ => Standing.loose) (fun _ _ => id) fun _ _ => id

theorem Mends.to_loose (h : Mends R (Standing D lead P) Q m m') : Mends R (Loose D lead) Q m m' :=
  h.mono (fun _ _ => id) (fun _ _ => Standing.loose) fun _ _ => id

/-! ### Looking -/

section

variable (hplain : Plain lead K)
include hplain

theorem head_mends : Mends (Settled D lead K) (Settled D lead K) Eq head head :=
  .reads fun _ _ hs => (hs.head_eq hplain).1.symm

theorem headIs_mends : Mends (Settled D lead K) (Settled D lead K) Eq (headIs k) (headIs k) := by
  apply Mends.reads
  intro s s' hs
  rw [Stream.headIs, Stream.headIs, (hs.head_eq hplain).1]

theorem headIn_mends {kinds : KindSet} :
    Mends (Settled D lead K) (Settled D lead K) Eq (headIn kinds) (headIn kinds) := by
  apply Mends.reads
  intro s s' hs
  rw [Stream.headIn, Stream.headIn, (hs.head_eq hplain).1]

/-- Reading the payload of the head token, which is the same in both runs, where the
    operation returns it exactly for a head of one kind. -/
theorem payload_mends {op : StreamM Payload}
    (hback : ∀ s x u, op s = .ok x u → s.head.kind = k ∧ x = s.head.payload ∧ u = s)
    (hthere : ∀ s : Stream, s.head.kind = k → op s = .ok s.head.payload s) :
    Mends (Settled D lead K) (Settled D lead K) Eq (onStream op) (onStream op) := by
  refine .onStream ?_ ?_
  · intro s x u h
    rw [(hback s x u h).2.2]
  · intro s s' x v hs h _
    obtain ⟨hkind, rfl, rfl⟩ := hback _ _ _ h
    have hhead := (hs.head_eq hplain).1
    exact ⟨_, _, hthere _ (hhead ▸ hkind), congrArg Token.payload hhead.symm, hs⟩

theorem name_mends : Mends (Settled D lead K) (Settled D lead K) Eq name name := by
  refine Mends.bind (payload_mends hplain ?_ fun _ => Stream.name_of_identifier)
    fun _ _ hx => .pure (congrArg _ hx)
  intro s x u h
  obtain ⟨hname, hpayload⟩ := Stream.ok_of_check h
  cases hpayload
  exact ⟨Stream.headIs_iff.mp hname, rfl, rfl⟩

theorem number_mends : Mends (Settled D lead K) (Settled D lead K) Eq number number := by
  refine Mends.bind (payload_mends hplain ?_ fun _ => Stream.number_of_number)
    fun _ _ hx => .pure (congrArg _ hx)
  intro s x u h
  obtain ⟨hnumber, hpayload⟩ := Stream.ok_of_check h
  cases hpayload
  exact ⟨Stream.headIs_iff.mp hnumber, rfl, rfl⟩

/-- The head token is taken in both runs. -/
theorem expect_mends (hend : k ∈ K → k ≠ .endOfFile) (hafter : k ∈ K → lead.after k = lead') :
    Mends (Settled D lead K) (Loose D lead') Eq (expect k) (expect k) := by
  refine Mends.onStream ?_ ?_
  · intro s x u h
    obtain ⟨-, rfl⟩ := Stream.expect_ok h
    exact (Stream.Moved.consumed s).toOnward.reports
  · intro s s' x v hs h _
    obtain ⟨t, script, hkind, hbeside⟩ := hs.exact hplain
    obtain ⟨hhead, rfl⟩ := Stream.expect_ok h
    obtain rfl : t.kind = k := by
      rw [← hhead, hbeside.meant.head]
      rfl
    have hhead' : s'.stream.head.kind = t.kind := congrArg Token.kind hbeside.typed.head
    refine ⟨(), _, Stream.expect_of_kind hbeside.typed.clear hhead', rfl, script, trivial, ?_⟩
    exact hafter hkind ▸ hbeside.consumed (hend hkind)

end

/-- The place of the head token, which may have been typed as another. -/
theorem location_settled (hlead : lead ≠ .head) :
    Mends (Settled D lead K) (Settled D lead K) D.level location location := by
  apply Mends.reads
  rintro s s' ⟨script, ⟨stroke, hfirst, hstrays, -⟩, hs⟩
  obtain ⟨more, rfl⟩ := List.head?_eq_some_iff.mp hfirst
  rw [hs.meant.head]
  cases stroke with
  | plain strays t =>
    obtain rfl : strays = [] := hstrays
    rw [hs.typed.head]
    exact D.level_refl _
  | mistyped m t =>
    rw [hs.typed.head]
    exact hs.careful.1.2.2.1
  | dropped m => exact absurd hs.careful.1.2.1 hlead

/-- The place at which a rule is looked for, which may be that of a stray. -/
theorem location_mends (hlead : lead ≠ .head) :
    Mends (Standing D lead P) (Standing D lead P) D.near location location := by
  apply Mends.reads
  rintro s s' ⟨script, -, hs⟩
  obtain ⟨stroke, more, rfl, hhead⟩ := hs.cons
  rw [hhead]
  cases stroke with
  | plain strays t =>
    cases strays with
    | nil =>
      rw [hs.typed.head]
      exact Std.Refl.refl _
    | cons x strays =>
      rw [hs.typed.head]
      exact hs.careful.1.2.2 x rfl
  | mistyped m t =>
    rw [hs.typed.head]
    exact D.near_of_level hs.careful.1.2.2.1
  | dropped m => exact absurd hs.careful.1.2.1 hlead

theorem currentScope_mends :
    Mends (Standing D lead P) (Standing D lead P) Eq currentScope currentScope :=
  .reads fun _ _ ⟨_, _, hs⟩ => hs.symbols.current

theorem atLimit_mends : Mends (Standing D lead P) (Standing D lead P) Eq atLimit atLimit := by
  apply Mends.reads
  rintro s s' ⟨script, -, hs⟩
  rw [hs.nesting]

theorem symbols_mends : Mends (Standing D lead P) (Standing D lead P) (SymbolTable.Alike D.near)
    (reads ReaderState.symbols) (reads ReaderState.symbols) :=
  .reads fun _ _ ⟨_, _, hs⟩ => hs.symbols

/-! ### Tokens that are asked for -/

/-- A token that the first run finds is asked for, and the second run gets over what was typed
    for it. -/
theorem demand_of (hk : k ≠ .endOfFile) (h : ∀ stroke script s s', P (stroke :: script) →
      Beside D lead (stroke :: script) s s' → stroke.meant.kind = k →
      ∃ b v, Stream.demand k follow s'.stream = .ok b v ∧
        Beside D (lead.after k) script (s.withStream s.stream.consumed) (s'.withStream v)) :
    Mends (Standing D lead P) (Loose D (lead.after k)) Eq (demand k follow) (demand k follow) := by
  refine Mends.bind_of (Q := fun _ _ => True) (.onStream ?_ ?_) (fun _ => .pure)
    fun _ _ _ => .pure rfl
  · intro s x u hrun
    exact (Stream.demand_course hk hrun).reports
  · rintro s s' x v ⟨script, hscript, hs⟩ hrun hquiet
    obtain ⟨hhead, rfl⟩ := Stream.demand_quiet hs.meant.clear hrun hquiet
    obtain ⟨stroke, more, rfl, hmeant⟩ := hs.cons
    obtain ⟨b, v, hrun', hv⟩ := h stroke more s s' hscript hs (hmeant ▸ hhead)
    exact ⟨b, v, hrun', trivial, more, trivial, hv⟩

/-- The kinds that are not asked for behind strays. -/
def elusive : KindSet := {.illegal, .assign, .endOfFile}

/-- Strays before a token that is asked for are passed. -/
theorem demand_mends (hk : k ∉ elusive) (hlead : lead ≠ .head) (hfollow : .illegal ∉ follow) :
    Mends (Standing D lead P) (Loose D (lead.after k)) Eq (demand k follow) (demand k follow) := by
  simp only [elusive, KindSet.mem_insert, KindSet.mem_braces, not_or] at hk
  obtain ⟨hillegal, hassign, hend⟩ := hk
  apply demand_of hend
  intro _ _ _ _ _ hs hkind
  exact hs.demand_over follow hkind hend hassign hillegal hlead hfollow

/-- Where `=` was typed for `:=`, it is passed. -/
theorem demand_assign_mends : Mends (Settled D .nothing K) (Loose D .nothing) Eq
    (demand .assign Starts.condition) (demand .assign Starts.condition) := by
  show Mends _ (Loose D (Lead.nothing.after .assign)) _ _ _
  apply demand_of (by decide)
  rintro stroke script s s' ⟨_, ⟨⟩, hstrays, -⟩ hs hkind
  cases stroke with
  | plain strays t =>
    obtain rfl : strays = [] := hstrays
    exact hs.demand_here _ hkind (by decide)
  | mistyped m t =>
    have hequals : t.kind = .equals := hs.careful.1.2.1
    obtain ⟨u, us, htyped, hu⟩ := hs.careful.typed_value hs.follows
    refine hs.demand_instead _ hkind (by decide) ?_ htyped hu (by decide) ?_
    · intro x hx
      obtain rfl : x = t := List.mem_singleton.mp hx
      rw [hequals]
      decide
    · rw [hs.typed.head]
      rfl
  | dropped m => exact absurd hs.careful.1.2.1 nofun

/-- Where the `=` behind the head of a procedure was not typed, nothing is passed. -/
theorem demand_equals_mends : Mends (Settled D .head K) (Loose D .nothing) Eq
    (demand .equals Starts.block) (demand .equals Starts.block) := by
  show Mends _ (Loose D (Lead.head.after .equals)) _ _ _
  apply demand_of (by decide)
  rintro stroke script s s' ⟨_, ⟨⟩, hstrays, -⟩ hs hkind
  cases stroke with
  | plain strays t =>
    obtain rfl : strays = [] := hstrays
    exact hs.demand_here _ hkind (by decide)
  | mistyped m t =>
    have hassign : m.kind = .assign := hs.careful.1.1
    exact absurd (hassign.symm.trans hkind) (by decide)
  | dropped m =>
    obtain ⟨u, us, htyped, hu⟩ := hs.careful.typed_block hs.follows
    have hnone : ∀ x ∈ (Stroke.dropped m).typed,
        x.kind ∉ Starts.block ∪ .singleton .equals ∧ x.kind ≠ .endOfFile :=
      fun x hx => absurd hx List.not_mem_nil
    refine hs.demand_instead _ hkind (by decide) hnone htyped hu (by decide) ?_
    have hholds : s'.stream.Holds (u :: us) := htyped ▸ hs.typed
    rw [hholds.head, Slip.ofScript, htyped]
    rfl

/-! ### Rule brackets -/

/-- A rule is left behind strays, or before what was typed for a token that may follow it. -/
theorem endRule_mends {rule : String} (h : Tolerates lead recover) :
    Mends (Standing D lead P) (Settled D lead recover) Eq
      (onStream (Stream.endRule rule recover)) (onStream (Stream.endRule rule recover)) := by
  refine Mends.onStream ?_ ?_
  · intro s x u hrun
    exact (Stream.endRule_course hrun).reports
  · rintro s s' x v ⟨script, hscript, hs⟩ hrun hquiet
    obtain ⟨hrule, hin, rfl⟩ := Stream.endRule_quiet hs.meant.clear hrun hquiet
    obtain ⟨stroke, more, rfl, hmeant⟩ := hs.cons
    obtain ⟨strays, t, us, stroke', hpassage⟩ :=
      hs.careful.settle hs.follows (hmeant ▸ hin) h.assign h.head
    obtain ⟨v, hrun', hover⟩ := Stream.endRule_over (hpassage.typed ▸ hs.typed) hpassage.illegal
      (hs.rules.symm ▸ hrule) h.illegal hpassage.kind
    have hclosed : Beside D lead (stroke :: more) (s.withStream (s.stream.closed rule))
        (s'.withStream (s'.stream.closed rule)) := hs.closed rule
    have hmeant' : stroke'.meant.kind ∈ recover := by
      rw [hpassage.meant, ← hmeant]
      exact hin
    exact ⟨(), v, hrun', rfl, _, at_cons.mpr ⟨hpassage.clear, hmeant'⟩,
      hclosed.over hpassage hover⟩

/-- A rule is entered behind strays. -/
theorem beginRule_mends {rule : String} {starts : KindSet} (hstarts : Calm starts)
    (hrecover : .illegal ∉ recover) :
    Mends (Loose D .nothing) (Settled D .nothing starts) (fun b b' => b = true ∧ b' = true)
      (onStream (Stream.beginRule rule starts recover))
      (onStream (Stream.beginRule rule starts recover)) := by
  refine Mends.onStream ?_ ?_
  · intro s b u hrun
    rcases Stream.beginRule_course hrun with ⟨-, v, hreach, -, rfl⟩ | ⟨-, hreach⟩
    · exact hreach.reports
    · exact hreach.reports
  · rintro s s' b v ⟨script, -, hs⟩ hrun hquiet
    obtain ⟨hstart, rfl, rfl⟩ := Stream.beginRule_quiet hs.meant.clear hrun hquiet
    obtain ⟨stroke, more, rfl, hmeant⟩ := hs.cons
    have hkind : stroke.meant.kind ∈ starts := hmeant ▸ hstart
    obtain ⟨strays, t, us, stroke', hpassage⟩ := hs.careful.settle hs.follows hkind
      (fun hassign => absurd hassign hstarts.2) nofun
    obtain ⟨v, hrun', hover⟩ := Stream.beginRule_over (hpassage.typed ▸ hs.typed)
      hpassage.illegal hstarts.1 hrecover hpassage.kind
    have hmeant' : stroke'.meant.kind ∈ starts := hpassage.meant ▸ hkind
    exact ⟨true, _, hrun', ⟨rfl, rfl⟩, _, at_cons.mpr ⟨hpassage.clear, hmeant'⟩,
      (hs.over hpassage hover).opened rule⟩

/-- A rule that the head token was seen to start is entered. -/
theorem beginCertain_mends {rule : String} {starts : KindSet} (hplain : Plain lead K) :
    Mends (Settled D lead K) (Settled D lead starts) Eq
      (onStream (Stream.beginCertain rule starts))
      (onStream (Stream.beginCertain rule starts)) := by
  refine Mends.onStream ?_ ?_
  · intro s x u hrun
    obtain ⟨-, rfl⟩ := Stream.beginCertain_ok hrun
    exact List.suffix_refl _
  · intro s s' x v hs hrun _
    obtain ⟨hstart, rfl⟩ := Stream.beginCertain_ok hrun
    obtain ⟨t, script, -, hbeside⟩ := hs.exact hplain
    have hhead : s.stream.head = t := hbeside.meant.head
    have hhead' : s'.stream.head = t := hbeside.typed.head
    refine ⟨(), _, Stream.beginCertain_of_start (hhead'.symm ▸ hhead ▸ hstart), rfl, _,
      at_cons.mpr ⟨rfl, hhead ▸ hstart⟩, hbeside.opened rule⟩

section

variable [Std.Refl Q] {r : Rule} {body body' : Location → Reader α}

/-- The rule of `attempt`: strays before the rule and behind it are passed. -/
theorem attempt_mends {placeholder placeholder' : Location → α}
    (hbody : ∀ l l', D.near l l' →
      Mends (Settled D .nothing r.starts) (Loose D .nothing) Q (body l) (body' l'))
    (hrecover : Tolerates .nothing recover) :
    Mends (Loose D .nothing) (Settled D .nothing recover) Q (attempt r recover placeholder body)
      (attempt r recover placeholder' body') := by
  have hinside : ∀ l l', D.near l l' → Mends (Settled D .nothing r.starts)
      (Settled D .nothing recover) Q
      (do let a ← body l; onStream (Stream.endRule r.title recover); return a)
      (do let a ← body' l'; onStream (Stream.endRule r.title recover); return a) := by
    intro l l' hl
    apply (hbody l l' hl).bind
    intro a a' ha
    exact (endRule_mends hrecover).bind fun _ _ _ => .pure ha
  apply (location_mends (show Lead.nothing ≠ .head from nofun)).bind
  intro l l' hl
  apply (beginRule_mends r.starts_calm hrecover.illegal).bind_of
  · intro begun
    cases begun with
    | true => exact (hinside l l (Std.Refl.refl l)).grows
    | false => exact .pure
  · rintro _ _ ⟨rfl, rfl⟩
    exact hinside l l' hl

/-- The rule of `certainly`: strays behind the rule are passed. -/
theorem certainly_mends (hplain : Plain lead K)
    (hbody : ∀ l l', D.near l l' →
      Mends (Settled D lead r.starts) (Loose D lead') Q (body l) (body' l'))
    (hrecover : Tolerates lead' recover) :
    Mends (Settled D lead K) (Settled D lead' recover) Q (certainly r recover body)
      (certainly r recover body') := by
  apply (beginCertain_mends hplain).bind
  intro _ _ _
  apply (location_mends hplain.2).bind
  intro l l' hl
  apply (hbody l l' hl).bind
  intro a a' ha
  exact (endRule_mends hrecover).bind fun _ _ _ => .pure ha

end

/-! ### Runs that do not return -/

theorem tooDeep_mends : Mends R R' Q (tooDeep : Reader α) m' := by
  apply Mends.never
  intro s a u h
  cases h

theorem unreachable_mends {r : Rule} : Mends R R' Q (unreachable r : Reader α) m' := by
  apply Mends.never
  intro s a u h
  cases h

theorem Grows.skipTo {find : KindSet} : Grows (skipTo find) :=
  .onStream fun _ _ _ h => (Stream.skipTo_course h).reports

theorem Grows.skipParenthesised : Grows (Reader.onStream Stream.skipParenthesised) :=
  .onStream fun _ _ _ h => (Stream.skipParenthesised_course h).reports

/-! ### Nesting, remarks and complaints -/

theorem deeper_mends [Std.Refl Q] (hm : Mends (Standing D lead P) (Standing D lead' P') Q m m') :
    Mends (Standing D lead P) (Standing D lead' P') Q (deeper m) (deeper m') := by
  apply Mends.bind (R := Standing D lead P) (S := Standing D lead P) (Q := Eq)
  · apply Mends.modify
    · rintro s s' ⟨script, hscript, hs⟩
      exact ⟨script, hscript, { hs with nesting := congrArg (· + 1) hs.nesting }⟩
    · exact fun s => List.suffix_refl _
  · intro _ _ _
    apply hm.bind
    intro a a' ha
    refine Mends.bind (S := Standing D lead' P') (Q := Eq) ?_ fun _ _ _ => .pure ha
    apply Mends.modify
    · rintro s s' ⟨script, hscript, hs⟩
      exact ⟨script, hscript, { hs with nesting := congrArg (· - 1) hs.nesting }⟩
    · exact fun s => List.suffix_refl _

theorem note_mends {n n' : Note} :
    Mends (Standing D lead P) (Standing D lead P) Eq (note n) (note n') := by
  apply Mends.modify
  · rintro s s' ⟨script, hscript, hs⟩
    exact ⟨script, hscript, { hs with }⟩
  · exact fun s => List.suffix_refl _

/-- A complaint is made in both runs. -/
theorem report_mends {p : Problem} {l l' : Location} (hl : D.level l l') :
    Mends (Standing D lead P) (Standing D lead P) Eq (report p l) (report p l') := by
  apply Mends.modify
  · rintro s s' ⟨script, hscript, hs⟩
    obtain ⟨told, hall, htold⟩ := hs.told
    exact ⟨script, hscript, { hs with told := ⟨told, hall, htold.complaint ⟨rfl, rfl, hl⟩⟩ }⟩
  · exact fun s => List.suffix_cons _ _

/-- The same is found to be amiss in both runs, if it is. -/
theorem reportUnless_mends {holds holds' : Prop} [Decidable holds] [Decidable holds']
    (hiff : holds ↔ holds') {p : Problem} {l l' : Location} (hl : D.level l l') :
    Mends (Standing D lead P) (Standing D lead P) Eq (reportUnless holds p l)
      (reportUnless holds' p l') := by
  unfold reportUnless
  by_cases h : holds
  · rw [if_pos h, if_pos (hiff.mp h)]
    exact .pure rfl
  · rw [if_neg h, if_neg (mt hiff.mpr h)]
    exact report_mends hl

/-! ### Declarations and scopes -/

theorem setSymbols_mends {t t' : SymbolTable} (h : t.Alike D.near t') :
    Mends (Standing D lead P) (Standing D lead P) Eq
      (modify fun s => { s with symbols := t } : Reader Unit)
      (modify fun s => { s with symbols := t' }) := by
  apply Mends.modify
  · rintro s s' ⟨script, hscript, hs⟩
    exact ⟨script, hscript, { hs with symbols := h }⟩
  · exact fun s => List.suffix_refl _

theorem declared_mends {what : Declared} {x : String} {l l' : Location}
    {outcome outcome' : Option (Entry × SymbolTable)} (hl : D.level l l')
    (h : Option.Rel (SymbolTable.Added D.near) outcome outcome') :
    Mends (Standing D lead P) (Standing D lead P) (Option.Rel (Entry.Alike D.near))
      (declared what x l outcome) (declared what x l' outcome') := by
  cases h with
  | none => exact (report_mends hl).bind fun _ _ _ => .pure .none
  | some h => exact (setSymbols_mends h.table).bind fun _ _ _ => .pure (.some h.entry)

theorem enterScope_mends {owner : Nat} :
    Mends (Standing D lead P) (Standing D lead P) Eq (enterScope owner) (enterScope owner) := by
  apply symbols_mends.bind
  intro t t' ht
  obtain ⟨hscope, hentered⟩ := ht.enter owner
  apply (setSymbols_mends hentered).bind
  intro _ _ _
  exact note_mends.bind fun _ _ _ => .pure hscope

theorem leaveScope_mends :
    Mends (Standing D lead P) (Standing D lead P) Eq leaveScope leaveScope := by
  apply symbols_mends.bind
  intro t t' ht
  cases hleave : t.leave with
  | none =>
    apply Mends.never
    intro s x u h
    cases h
  | some outer =>
    obtain ⟨outer', hleave', houter⟩ := ht.leave hleave
    rw [hleave']
    exact (setSymbols_mends houter).bind fun _ _ _ => note_mends

theorem inScope_mends [Std.Refl Q] {owner : Nat} {body body' : Nat → Reader α}
    (hbody : ∀ scope,
      Mends (Standing D lead P) (Standing D lead' P') Q (body scope) (body' scope)) :
    Mends (Standing D lead P) (Standing D lead' P') Q (inScope owner body)
      (inScope owner body') := by
  apply enterScope_mends.bind
  rintro scope _ rfl
  apply (hbody scope).bind
  intro a a' ha
  exact leaveScope_mends.bind fun _ _ _ => .pure ha

/-! ### Loops -/

/-- The token that leads into a turn of the first run stands in both runs, and none leads into
    one of the second alone. -/
theorem again_cases {kinds : KindSet} {s s' : ReaderState} (h : Settled D .nothing K s s')
    (hassign : .assign ∉ kinds) (hequals : .equals ∉ kinds) :
    (s'.stream.head.kind ∈ kinds ∧ Settled D .nothing kinds s s') ∨
      s.stream.head.kind ∉ kinds ∧ s'.stream.head.kind ∉ kinds := by
  obtain ⟨script, ⟨stroke, hfirst, hstrays, -⟩, hs⟩ := h
  obtain ⟨more, rfl⟩ := List.head?_eq_some_iff.mp hfirst
  rw [hs.meant.head]
  cases stroke with
  | plain strays t =>
    obtain rfl : strays = [] := hstrays
    rw [hs.typed.head]
    by_cases hkind : t.kind ∈ kinds
    · exact .inl ⟨hkind, .plain [] t :: more, at_cons.mpr ⟨rfl, hkind⟩, hs⟩
    · exact .inr ⟨hkind, hkind⟩
  | mistyped m t =>
    have hm : m.kind = .assign := hs.careful.1.1
    have ht : t.kind = .equals := hs.careful.1.2.1
    rw [hs.typed.head, Stroke.meant, hm, ht]
    exact .inr ⟨hassign, hequals⟩
  | dropped m => exact absurd hs.careful.1.2.1 nofun

section

variable {kinds : KindSet} {turn : α → Reader α} {a a' b : α} {s s' u : ReaderState}
  {r r' : EStateM.Result Abort ReaderState α}

theorem Unrolled.reports (hturn : ∀ a, Grows (turn a)) (h : Unrolled kinds turn a s r)
    (hr : r = .ok b u) : s.stream.reports <:+ u.stream.reports := by
  induction h with
  | stopped hout =>
    cases hr
    exact List.suffix_refl _
  | aborted hin hrun => cases hr
  | turned hin hrun hfewer hfurther ih => exact (hturn _ _ _ _ hrun).trans (ih hr)

theorem Unrolled.mends [Std.Refl Q] (hassign : .assign ∉ kinds) (hequals : .equals ∉ kinds)
    (hturn : ∀ a a', Q a a' →
      Mends (Settled D .nothing kinds) (Settled D .nothing K) Q (turn a) (turn a'))
    (h : Unrolled kinds turn a s r) (h' : Unrolled kinds turn a' s' r') (hr : r = .ok b u)
    (hquiet : u.stream.Quiet) (hs : Settled D .nothing K s s') (ha : Q a a') :
    ∃ b' u', r' = .ok b' u' ∧ Q b b' ∧ Settled D .nothing K u u' := by
  have hgrows : ∀ a, Grows (turn a) := fun a => (hturn a a (Std.Refl.refl a)).grows
  induction h generalizing a' s' with
  | @stopped c t hout =>
    cases hr
    rcases again_cases hs hassign hequals with ⟨hin', hs'⟩ | ⟨-, hout'⟩
    · exact absurd (hs'.head_eq ⟨hassign, nofun⟩).2 hout
    · cases h' with
      | stopped hout'' => exact ⟨_, _, rfl, ha, hs⟩
      | aborted hin'' hrun => exact absurd hin'' hout'
      | turned hin'' hrun hfewer hfurther => exact absurd hin'' hout'
  | aborted hin hrun => cases hr
  | @turned c d t v r hin hrun hfewer hfurther ih =>
    rcases again_cases hs hassign hequals with ⟨hin', hs'⟩ | ⟨hout, -⟩
    · have hbefore : v.stream.Quiet := hquiet.of_suffix (hfurther.reports hgrows hr)
      obtain ⟨d', v', hrun', hd, hv⟩ := (hturn _ _ ha).mends _ _ _ _ hs' hrun hbefore
      cases h' with
      | stopped hout' => exact absurd hin' hout'
      | aborted hin'' hrun'' =>
        rw [hrun'] at hrun''
        cases hrun''
      | turned hin'' hrun'' hfewer'' hfurther'' =>
        rw [hrun'] at hrun''
        cases hrun''
        exact ih hfurther'' hr hv hd
    · exact absurd hin hout

/-- The rule of loops that are not stopped by their bound. -/
theorem whileIn_mends [Std.Refl Q] (hassign : .assign ∉ kinds) (hequals : .equals ∉ kinds)
    (hloop : Grammar.Unbounded kinds turn)
    (hturn : ∀ a a', Q a a' →
      Mends (Settled D .nothing kinds) (Settled D .nothing K) Q (turn a) (turn a'))
    (ha : Q a a') :
    Mends (Settled D .nothing K) (Settled D .nothing K) Q (whileIn kinds turn a)
      (whileIn kinds turn a') where
  grows := .whileIn (fun a => (hturn a a (Std.Refl.refl a)).grows) a
  mends := by
    intro s s' b u hs h hquiet
    exact Unrolled.mends hassign hequals hturn (hloop a s) (hloop a' s') h hquiet hs ha

end

/-- Parts behind separators are read alike, one by one. -/
theorem separated_mends [Std.Refl Q] {sign : Kind} {pass : Reader Unit} {part : Reader α}
    (hassign : sign ≠ .assign) (hequals : sign ≠ .equals)
    (hloop : Grammar.Unbounded {sign} (Grammar.further pass part))
    (hpass : Mends (Settled D .nothing {sign}) (Loose D .nothing) Eq pass pass)
    (hpart : Mends (Loose D .nothing) (Settled D .nothing K) Q part part) :
    Mends (Loose D .nothing) (Settled D .nothing K) (List.Forall₂ Q) (separated sign pass part)
      (separated sign pass part) := by
  apply hpart.bind
  intro first first' hfirst
  apply Mends.bind (Q := List.Forall₂ Q)
  · apply whileIn_mends
    · simpa using hassign.symm
    · simpa using hequals.symm
    · exact hloop
    · intro found found' hfound
      apply hpass.bind
      intro _ _ _
      exact hpart.bind fun _ _ hnext => .pure (.cons hnext hfound)
    · exact .cons hfirst .nil
  · intro found found' hfound
    exact .pure (List.rel_reverse hfound)

end Reader

end PlZero
