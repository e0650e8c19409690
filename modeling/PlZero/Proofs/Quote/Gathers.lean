/-
  PlZero/Proofs/Quote/Gathers.lean
  ================================
  **A tree quotes the tokens it was read from.**  `Gathers tokens known m f` says that the reader
  `m`, which goes through `tokens`, returns a result all of whose leaves `f` are sited, if the
  leaves `known` are.  So the known leaves say what has been read so far: a reader that is bound
  adds the leaves of its result to them (`Gathers.bind`), and a tree that is put together may
  hold no others (`Gathers.pure`).  Leaves stay sited, since diagnostics only get more.

  There is one rule for every way to build a reader.  Most readers take tokens off the front and
  leave the table alone, which is known of them (`Steady`, `Still`).  A rule that reads a leaf is
  entered at a token that can start it, and `Site` says which place its body is given then
  (`Gathers.attempt_at`).
-/
import PlZero.Proofs.Quote.Basic
import PlZero.Proofs.Reading.Leaves
import PlZero.Proofs.Reading.Steady
import PlZero.Proofs.Scope.Linked

namespace PlZero

open Quote (Sited Sought)

variable {tokens : List Token} {known more : List Quote} {reports further : List Diagnostic}

/-! ### Tables and states -/

namespace SymbolTable

variable {t u : SymbolTable} {name : String} {l : Location} {m : Meaning}

/-- The leaves of what was declared are sited.  The predefined entries are not read. -/
def Sited (tokens : List Token) (reports : List Diagnostic) (t : SymbolTable) : Prop :=
  ∀ (k : Nat) (e : Entry), t.entries[k]? = some e →
    initial.entries[k]? = some e ∨ ∀ q ∈ e.meaning.quotes, q.Sited tokens reports

theorem Sited.mono (h : t.Sited tokens reports) (hsub : reports ⊆ further) :
    t.Sited tokens further := by
  intro k e he
  rcases h k e he with hold | hnew
  · exact .inl hold
  · exact .inr fun q hq => (hnew q hq).mono hsub

/-- A table holds the entries of another one, and entries with no leaves but those that are
    known. -/
def Adds (known : List Quote) (t u : SymbolTable) : Prop :=
  ∀ (k : Nat) (e : Entry), u.entries[k]? = some e →
    t.entries[k]? = some e ∨ e.meaning.quotes ⊆ known

theorem Sited.adds (h : t.Sited tokens reports) (hadds : t.Adds known u)
    (hknown : ∀ q ∈ known, q.Sited tokens reports) : u.Sited tokens reports := by
  intro k e he
  rcases hadds k e he with hold | hnew
  · exact h k e hold
  · exact .inr fun q hq => hknown q (hnew hq)

theorem Adds.append (hm : m.quotes ⊆ known) : t.Adds known (t.append name l m).2 := by
  intro k e he
  have hpush : (t.append name l m).2.entries =
      t.entries.push ⟨name, l, t.current, t.entries.size, m⟩ := rfl
  rw [hpush, Array.getElem?_push] at he
  split at he
  · cases he
    exact .inr hm
  · exact .inl he

theorem Adds.add (hm : m.quotes ⊆ known) : t.Adds known (t.add name l m).2 := by
  have happended : t.Adds known (t.append name l m).2 := .append hm
  exact happended

theorem Adds.declare (hm : m.quotes ⊆ known) :
    ∀ e u, t.declare name l m = some (e, u) → t.Adds known u := by
  intro e u hu
  cases declare_some hu
  exact .add hm

theorem Adds.declareConstant {tree : Constant} {outcome : Option (Entry × SymbolTable)}
    (htree : tree.quotes ⊆ known) (houtcome : t.declareConstant name l tree = .ok outcome) :
    ∀ e u, outcome = some (e, u) → t.Adds known u := by
  rintro e u rfl
  obtain ⟨value, -, hadded⟩ := declareConstant_added houtcome
  cases hadded
  exact .add htree

/-- Only a procedure is given its scope, and a procedure has no leaves. -/
theorem Adds.enter (owner : Nat) : t.Adds known (t.enter owner).2 := by
  intro k e he
  rw [enter_entries] at he
  obtain ⟨x, hx, rfl⟩ := Option.map_eq_some_iff.mp he
  split
  · unfold withLocalScope
    split
    · exact .inr (List.nil_subset _)
    · exact .inl hx
  · exact .inl hx

theorem Adds.leave (hu : t.leave = some u) : t.Adds known u := by
  intro k e he
  rw [(leave_rows hu).2] at he
  exact .inl he

end SymbolTable

/-- A state that goes through the tokens; the leaves of its table and those that are known are
    sited. -/
structure ReaderState.Knows (tokens : List Token) (known : List Quote) (s : ReaderState) :
    Prop where
  ahead : s.stream.ahead <:+ tokens
  symbols : s.symbols.Sited tokens s.stream.reports
  known : ∀ q ∈ known, q.Sited tokens s.stream.reports

namespace ReaderState

variable {s t : ReaderState}

theorem Knows.fewer (h : s.Knows tokens known) (hsub : more ⊆ known) : s.Knows tokens more :=
  ⟨h.ahead, h.symbols, fun q hq => h.known q (hsub hq)⟩

/-- What was known before is known still. -/
theorem Knows.together (h : s.Knows tokens known) (hsub : s.stream.reports ⊆ t.stream.reports)
    (ht : t.Knows tokens more) : t.Knows tokens (more ++ known) := by
  refine ⟨ht.ahead, ht.symbols, ?_⟩
  intro q hq
  rcases List.mem_append.mp hq with hq | hq
  · exact ht.known q hq
  · exact (h.known q hq).mono hsub

/-- Tokens are taken off the front. -/
theorem Knows.taken (h : s.Knows tokens known) {u : Stream} (hahead : u.ahead <:+ s.stream.ahead)
    (hsub : s.stream.reports ⊆ u.reports) : (s.withStream u).Knows tokens known :=
  ⟨hahead.trans h.ahead, h.symbols.mono hsub, fun q hq => (h.known q hq).mono hsub⟩

/-- The place `l` is one for a leaf that the rule `r` reads off the head token. -/
def Site (tokens : List Token) (r : Rule) (l : Location) (s : ReaderState) : Prop :=
  ∃ earlier later, tokens = earlier ++ s.stream.head :: later ∧
    Sought r s.stream.reports earlier s.stream.head l

/-- A leaf of the head token is sited at such a place. -/
theorem Site.sited {q : Quote} (h : Site tokens q.rule q.location s) (hof : q.Of s.stream.head)
    (htype : q.rule = .typeIdentifier → q.location = s.stream.head.location) :
    q.Sited tokens s.stream.reports := by
  obtain ⟨earlier, later, hsplit, hsought⟩ := h
  exact ⟨earlier, _, later, hsplit, hof, hsought, htype⟩

/-- A token that does not end the input is one of the tokens. -/
theorem Knows.split (h : s.Knows tokens known) (hne : s.stream.head.kind ≠ .endOfFile) :
    ∃ earlier later, tokens = earlier ++ s.stream.head :: later := by
  obtain ⟨earlier, hearlier⟩ := h.ahead
  rw [Stream.ahead_of_ne hne] at hearlier
  exact ⟨earlier, _, hearlier.symm⟩

/-- The head token is at its own place. -/
theorem Knows.site (h : s.Knows tokens known) (hne : s.stream.head.kind ≠ .endOfFile) {r : Rule} :
    Site tokens r s.stream.head.location s := by
  obtain ⟨earlier, later, hsplit⟩ := h.split hne
  exact ⟨earlier, later, hsplit, .here⟩

/-- A rule that is entered is given a site. -/
theorem Knows.entered (h : s.Knows tokens known) {r : Rule} {recover : KindSet} {u : Stream}
    (hbegin : Stream.beginRule r.title r.starts recover s.stream = .ok true u) :
    Site tokens r s.stream.head.location (s.withStream u) := by
  have hend : Kind.endOfFile ∉ r.starts := by cases r <;> decide
  rcases Stream.beginRule_found hbegin with ⟨hstart, rfl⟩ |
    ⟨v, passed, rfl, hstart, honward, hahead, hhead, hpassed⟩
  · have hne : s.stream.head.kind ≠ .endOfFile := fun heq => hend (heq ▸ hstart)
    exact h.site hne
  · have hne : v.head.kind ≠ .endOfFile := fun heq => hend (heq ▸ hstart)
    rw [Stream.ahead_of_ne hne] at hahead
    obtain ⟨front, hfront⟩ := h.ahead
    rw [hahead] at hfront
    cases passed with
    | nil => exact absurd ((Stream.head_of_ahead hahead).1 ▸ hstart) hhead
    | cons x passed =>
      obtain rfl : s.stream.head = x := (Stream.head_of_ahead hahead).1
      refine ⟨front ++ s.stream.head :: passed, v.next.ahead, ?_, .before rfl ?_ hpassed⟩
      · rw [← hfront]
        simp [withStream, Stream.opened, Stream.trace]
      · exact honward.reports.subset List.mem_cons_self

end ReaderState

namespace Reader

open ReaderState (Site)

/-- A reader that returns from the state `s` has read off the tokens what its result holds. -/
def GathersFrom {α : Type} (tokens : List Token) (m : Reader α) (f : α → List Quote)
    (s : ReaderState) : Prop :=
  Ends (fun _ _ => True) m
    (fun a t => s.stream.reports ⊆ t.stream.reports ∧ t.Knows tokens (f a)) s

/-- A reader that returns has read off the tokens what its result holds beside known leaves. -/
def Gathers {α : Type} (tokens : List Token) (known : List Quote) (m : Reader α)
    (f : α → List Quote) : Prop :=
  ∀ s : ReaderState, s.Knows tokens known → GathersFrom tokens m f s

variable {α β : Type} {m : Reader α} {k : α → Reader β} {f : α → List Quote}
  {g : β → List Quote} {r : Rule} {recover : KindSet} {s : ReaderState}

/-! ### Logic -/

theorem Gathers.pure {a : α} (h : f a ⊆ known) : Gathers tokens known (pure a) f :=
  fun _ hs => .pure ⟨List.Subset.refl _, hs.fewer h⟩

/-- What one reader has read is known to the next. -/
theorem GathersFrom.before (hm : GathersFrom tokens m f s)
    (hk : ∀ a, Gathers tokens (f a) (k a) g) : GathersFrom tokens (m >>= k) g s := by
  apply Ends.bind
  apply Ends.post hm
  rintro a t ⟨hsub, ht⟩
  apply Ends.post (hk a t ht)
  rintro b u ⟨hsub', hu⟩
  exact ⟨List.Subset.trans hsub hsub', hu⟩

/-- So it is beside what was known before. -/
theorem Gathers.then (hm : Gathers tokens known m f)
    (hk : ∀ a, Gathers tokens (f a ++ known) (k a) g) : Gathers tokens known (m >>= k) g := by
  intro s hs
  have hboth : GathersFrom tokens m (fun a => f a ++ known) s := by
    apply Ends.post (hm s hs)
    rintro a t ⟨hsub, ht⟩
    exact ⟨hsub, hs.together hsub ht⟩
  exact hboth.before hk

/-- The same for a reader that needs to know of nothing. -/
theorem Gathers.bind (hm : Gathers tokens [] m f)
    (hk : ∀ a, Gathers tokens (f a ++ known) (k a) g) : Gathers tokens known (m >>= k) g :=
  Gathers.then (fun s hs => hm s (hs.fewer (List.nil_subset _))) hk

/-- A reader in front whose result holds no leaves. -/
theorem Gathers.behind (hm : Gathers tokens [] m fun _ => [])
    (hk : ∀ a, Gathers tokens known (k a) g) : Gathers tokens known (m >>= k) g :=
  hm.bind hk

theorem Gathers.look {look : ReaderState → α} (h : ∀ a, Gathers tokens known (k a) g) :
    Gathers tokens known (reads look >>= k) g :=
  fun s hs => .bind (.reads (h _ s hs))

theorem Gathers.of_error (h : ∀ s, ∃ e t, m s = .error e t) : Gathers tokens known m f := by
  intro s _
  obtain ⟨e, t, hm⟩ := h s
  unfold GathersFrom Ends
  rw [hm]
  trivial

theorem Gathers.tooDeep : Gathers tokens known (tooDeep : Reader α) f :=
  .of_error fun _ => ⟨_, _, rfl⟩

theorem Gathers.unreachable : Gathers tokens known (unreachable r : Reader α) f :=
  .of_error fun _ => ⟨_, _, rfl⟩

/-- A reader that leaves the table as it is, whatever its result. -/
theorem Gathers.still (hsteady : ∀ s, Steady m s) (hstill : Still m) :
    Gathers tokens known m fun _ => [] := by
  intro s hs
  refine (Ends.and (hsteady s) (hstill s.symbols s rfl)).mono (fun _ _ _ => trivial) ?_
  rintro a t ⟨hcourse, hsymbols⟩
  have hsub := hcourse.stream.onward.reports.subset
  have ht := hs.taken hcourse.stream.onward.ahead hsub
  exact ⟨hsub, ht.ahead, hsymbols ▸ ht.symbols, List.forall_mem_nil _⟩

/-! ### The stream -/

theorem Gathers.onStream {op : StreamM α}
    (h : ∀ s a u, op s = .ok a u → u.ahead <:+ s.ahead ∧ s.reports ⊆ u.reports) :
    Gathers tokens known (onStream op) fun _ => [] := by
  intro s hs
  apply Ends.of_returns
  intro a u hu
  obtain ⟨hahead, hsub⟩ := h s.stream a u hu
  exact ⟨hsub, (hs.taken hahead hsub).fewer (List.nil_subset _)⟩

theorem Gathers.name : Gathers tokens known name fun _ => [] := .still (fun _ => .name) .name

/-- Also at the end of the input, which stays the head. -/
theorem Gathers.expect {sign : Kind} : Gathers tokens known (expect sign) fun _ => [] := by
  apply Gathers.onStream
  intro s x u hu
  obtain ⟨-, rfl⟩ := Stream.expect_ok hu
  have honward := (Stream.Moved.consumed s).toOnward
  exact ⟨honward.ahead, honward.reports.subset⟩

theorem Gathers.demand {sign : Kind} (hsign : sign ≠ .endOfFile) :
    Gathers tokens known (demand sign recover) fun _ => [] :=
  .still (fun _ => .demand hsign) .demand

theorem Gathers.report {p : Problem} {l : Location} :
    Gathers tokens known (report p l) fun _ => [] :=
  .still (fun _ => .report) .report

theorem Gathers.note {n : Note} : Gathers tokens known (note n) fun _ => [] :=
  .still (fun _ => .note) .note

/-! ### Leaves -/

theorem GathersFrom.look {look : ReaderState → α} (h : GathersFrom tokens (k (look s)) g s) :
    GathersFrom tokens (reads look >>= k) g s :=
  Ends.bind (.reads h)

/-- A name is that of the head token. -/
theorem GathersFrom.name {k : String → Reader β} (h : s.stream.head.kind = .identifier →
    GathersFrom tokens (k s.stream.head.payload.name) g s) :
    GathersFrom tokens (Reader.name >>= k) g s := by
  apply Ends.bind
  apply Ends.bind
  apply Ends.of_returns
  intro x u hu
  obtain ⟨hcheck, hpayload⟩ := Stream.ok_of_check hu
  cases hpayload
  exact h (Stream.headIs_iff.mp hcheck)

/-- A number is the value of the head token. -/
theorem GathersFrom.number {k : Int → Reader β} (h : s.stream.head.kind = .number →
    GathersFrom tokens (k s.stream.head.payload.value) g s) :
    GathersFrom tokens (Reader.number >>= k) g s := by
  apply Ends.bind
  apply Ends.bind
  apply Ends.of_returns
  intro x u hu
  obtain ⟨hcheck, hpayload⟩ := Stream.ok_of_check hu
  cases hpayload
  exact h (Stream.headIs_iff.mp hcheck)

/-- A leaf that is sited is known from then on. -/
theorem Gathers.quoting {q : Quote} (h : Gathers tokens (q :: known) m f)
    (hs : s.Knows tokens known) (hq : q.Sited tokens s.stream.reports) :
    GathersFrom tokens m f s :=
  h s ⟨hs.ahead, hs.symbols, List.forall_mem_cons.mpr ⟨hq, hs.known⟩⟩

/-! ### Brackets and loops -/

theorem Gathers.deeper (h : Gathers tokens known m f) : Gathers tokens known (deeper m) f := by
  intro s hs
  apply Ends.deeper
  apply Ends.post (h s.deepened ⟨hs.ahead, hs.symbols, hs.known⟩)
  rintro a t ⟨hsub, ht⟩
  exact ⟨hsub, ht.ahead, ht.symbols, ht.known⟩

theorem Gathers.endRule {rule : String} :
    Gathers tokens known (Reader.onStream (Stream.endRule rule recover)) fun _ => [] := by
  apply Gathers.onStream
  intro s x u hu
  have honward := (Stream.endRule_course hu).onward
  exact ⟨honward.ahead, honward.reports.subset⟩

/-- What is read inside a rule is known behind it. -/
theorem GathersFrom.closing {rule : String} (h : GathersFrom tokens m f s) :
    GathersFrom tokens (do
      let a ← m
      Reader.onStream (Stream.endRule rule recover)
      return a) f s :=
  h.before fun _ => .behind .endRule fun _ => .pure (List.Subset.refl _)

/-- The body of a rule is given a site. -/
theorem Gathers.attempt_at {placeholder : Location → α} {body : Location → Reader α}
    (hlost : ∀ l, f (placeholder l) ⊆ known)
    (hbody : ∀ l s, s.Knows tokens known → Site tokens r l s → GathersFrom tokens (body l) f s) :
    Gathers tokens known (attempt r recover placeholder body) f := by
  intro s hs
  apply GathersFrom.look
  apply Ends.bind
  apply Ends.of_returns
  intro begun u hu
  have hreach : u.ahead <:+ s.stream.ahead ∧ s.stream.reports ⊆ u.reports := by
    rcases Stream.beginRule_course hu with ⟨-, v, hcourse, -, rfl⟩ | ⟨-, hcourse⟩
    · exact ⟨hcourse.onward.ahead, hcourse.onward.reports.subset⟩
    · exact ⟨hcourse.onward.ahead, hcourse.onward.reports.subset⟩
  have hknows := hs.taken hreach.1 hreach.2
  have hrest : GathersFrom tokens (if begun = true then do
      let a ← body s.stream.head.location
      Reader.onStream (Stream.endRule r.title recover)
      return a else return placeholder s.stream.head.location) f (s.withStream u) := by
    cases begun with
    | true => exact (hbody _ _ hknows (hs.entered hu)).closing
    | false => exact Gathers.pure (hlost _) _ hknows
  apply Ends.post hrest
  rintro a t ⟨hsub, ht⟩
  exact ⟨List.Subset.trans hreach.2 hsub, ht⟩

theorem Gathers.attempt {placeholder : Location → α} {body : Location → Reader α}
    (hlost : ∀ l, f (placeholder l) ⊆ known)
    (hbody : ∀ l, Gathers tokens known (body l) f) :
    Gathers tokens known (attempt r recover placeholder body) f :=
  .attempt_at hlost fun l s hs _ => hbody l s hs

theorem Gathers.certainly {body : Location → Reader α}
    (hbody : ∀ l, Gathers tokens known (body l) f) :
    Gathers tokens known (certainly r recover body) f := by
  apply Gathers.behind
  · apply Gathers.onStream
    intro s x u hu
    obtain ⟨-, rfl⟩ := Stream.beginCertain_ok hu
    exact ⟨List.suffix_refl _, List.Subset.refl _⟩
  · intro _ s hs
    exact .look (hbody _ s hs).closing

theorem Gathers.whileIn {kinds : KindSet} {turn : α → Reader α} {a : α} (ha : f a ⊆ known)
    (hturn : ∀ b, Gathers tokens (f b) (turn b) f) :
    Gathers tokens known (whileIn kinds turn a) f := by
  intro s hs
  apply Ends.whileIn
    (I := fun b t => s.stream.reports ⊆ t.stream.reports ∧ t.Knows tokens (f b))
  · exact ⟨List.Subset.refl _, hs.fewer ha⟩
  · rintro b t ⟨hsub, ht⟩ -
    apply Ends.post (hturn b t ht)
    rintro c u ⟨hsub', hu⟩
    exact ⟨List.Subset.trans hsub hsub', hu⟩

theorem Gathers.separated {sign : Kind} {pass : Reader Unit} {part : Reader α}
    (hpass : Gathers tokens [] pass fun _ => []) (hpart : Gathers tokens [] part f) :
    Gathers tokens [] (separated sign pass part) fun as => as.flatMap f := by
  apply hpart.bind
  intro first
  have hloop : Gathers tokens (f first ++ []) (Reader.whileIn {sign} (fun found => do
      pass
      return (← part) :: found) [first]) fun as => as.flatMap f := by
    apply Gathers.whileIn
    · simp
    · intro found
      apply Gathers.behind hpass
      intro _
      exact hpart.bind fun a => .pure (by simp)
  apply hloop.then
  intro found
  apply Gathers.pure
  intro q hq
  simp only [List.mem_flatMap, List.mem_reverse] at hq
  exact List.mem_append.mpr (.inl (List.mem_flatMap.mpr hq))

/-! ### Declarations and scopes -/

/-- Further entries are added to the table. -/
theorem GathersFrom.setSymbols {u : SymbolTable} (hs : s.Knows tokens known)
    (hu : s.symbols.Adds known u) :
    GathersFrom tokens (modify fun s => { s with symbols := u }) (fun _ => []) s :=
  ⟨List.Subset.refl _, hs.ahead, hs.symbols.adds hu hs.known, List.forall_mem_nil _⟩

/-- A reader that depends on the table. -/
theorem Gathers.symbols {k : SymbolTable → Reader β}
    (h : ∀ s, s.Knows tokens known → GathersFrom tokens (k s.symbols) g s) :
    Gathers tokens known (reads ReaderState.symbols >>= k) g :=
  fun s hs => .look (h s hs)

theorem GathersFrom.declared {what : Declared} {name : String} {l : Location}
    {outcome : Option (Entry × SymbolTable)} (hs : s.Knows tokens known)
    (h : ∀ e u, outcome = some (e, u) → s.symbols.Adds known u) :
    GathersFrom tokens (declared what name l outcome) (fun _ => []) s := by
  cases outcome with
  | none =>
    have hreport : Gathers tokens known (do
        Reader.report (.alreadyDeclared what name) l
        return (none : Option Entry)) fun _ => [] :=
      .behind .report fun _ => .pure (List.nil_subset _)
    exact hreport s hs
  | some added =>
    exact (GathersFrom.setSymbols hs (h _ _ rfl)).before fun _ => .pure (List.nil_subset _)

theorem Gathers.inScope {owner : Nat} {body : Nat → Reader α}
    (h : ∀ n, Gathers tokens [] (body n) f) : Gathers tokens [] (inScope owner body) f := by
  have henter : Gathers tokens [] (enterScope owner) fun _ => [] := by
    apply Gathers.symbols
    intro s hs
    apply (GathersFrom.setSymbols hs (.enter owner)).before
    intro _
    exact .behind .note fun _ => .pure (List.nil_subset _)
  have hleave : Gathers tokens [] leaveScope fun _ => [] := by
    apply Gathers.symbols
    intro s hs
    cases houter : s.symbols.leave with
    | none => exact Gathers.of_error (fun _ => ⟨_, _, rfl⟩) s hs
    | some outer => exact (GathersFrom.setSymbols hs (.leave houter)).before fun _ => .note
  apply henter.behind
  intro n
  apply (h n).bind
  intro a
  exact .behind hleave fun _ => .pure (by simp)

end Reader

end PlZero
