/-
  PlZero/Proofs/Stream/Alike.lean
  ===============================
  **One stream scanned on demand, and one scanned before.**  A stream that is scanned while it
  is read reports the fault of a token when it gets to that token.  A stream whose tokens were
  scanned before has all faults in its journal from the start.  `Stream.Alike` relates two such
  streams: they stand at the same token with the same tokens behind it, and at each place the
  second has the reports of the first and the faults that still lie ahead of it.

  No two tokens stand at one place, so a report at a place that was passed does not get
  before a fault that still lies ahead.  This is what keeps the order of the reports at each
  place the same.  `Agrees R m` says that two runs of `m` from states related by `R` return the
  same and leave related states, if both return.
-/
import PlZero.Proofs.Compilation.Stages
import PlZero.Proofs.Diagnostic.Sorted
import PlZero.Proofs.Stream.Course

namespace PlZero

/-! ### Two runs -/

/-- Two runs from related states return the same and leave related states, if both return. -/
def Agrees {σ α : Type} (R : σ → σ → Prop) (m : EStateM Abort σ α) : Prop :=
  ∀ s s' a u a' u', R s s' → m s = .ok a u → m s' = .ok a' u' → a' = a ∧ R u u'

section

variable {σ α β : Type} {R : σ → σ → Prop} {m : EStateM Abort σ α}
  {f : α → EStateM Abort σ β}

theorem Agrees.pure {a : α} : Agrees R (pure a) := by
  intro s s' b u b' u' hs h h'
  cases h
  cases h'
  exact ⟨rfl, hs⟩

theorem Agrees.bind (hm : Agrees R m) (hf : ∀ a, Agrees R (f a)) : Agrees R (m >>= f) := by
  intro s s' b u b' u' hs h h'
  obtain ⟨a, t, hma, hfa⟩ := ok_of_bind h
  obtain ⟨a', t', hma', hfa'⟩ := ok_of_bind h'
  obtain ⟨rfl, ht⟩ := hm s s' a t a' t' hs hma hma'
  exact hf a' t t' b u b' u' ht hfa hfa'

/-- An operation that never returns agrees with itself. -/
theorem Agrees.never (h : ∀ s a u, m s ≠ .ok a u) : Agrees R m :=
  fun s _ a u _ _ _ hm _ => absurd hm (h s a u)

/-- Looking at what related states have in common. -/
theorem Agrees.look (look : σ → α) {m : EStateM Abort σ α} (hm : ∀ s, m s = .ok (look s) s)
    (hsame : ∀ s s', R s s' → f (look s') = f (look s)) (hf : ∀ a, Agrees R (f a)) :
    Agrees R (m >>= f) := by
  intro s s' b u b' u' hs h h'
  obtain ⟨a, t, hma, hfa⟩ := ok_of_bind h
  obtain ⟨a', t', hma', hfa'⟩ := ok_of_bind h'
  rw [hm] at hma hma'
  cases hma
  cases hma'
  rw [hsame s s' hs] at hfa'
  exact hf _ s s' b u b' u' hs hfa hfa'

theorem Agrees.modify {g : σ → σ} (hg : ∀ s s', R s s' → R (g s) (g s')) :
    Agrees R (modify g : EStateM Abort σ Unit) := by
  intro s s' b u b' u' hs h h'
  cases h
  cases h'
  exact ⟨rfl, hg s s' hs⟩

end

/-! ### Keys of places -/

/-- The key of a place in a listing. -/
def Location.key (l : Location) : Int × Int := if l.isKnown then (l.line, l.column) else (0, 0)

def Scan.location? : Scan → Option Location
  | .token t _ => some t.location
  | .overlong _ => none

/-! ### Streams -/

/-- The places `L`, and one more. -/
def Also (L : Location → Prop) (l : Location) : Location → Prop := fun m => L m ∨ m = l

namespace Stream

/-- The diagnostics that were reported so far, in their order. -/
def diagnostics (s : Stream) : List Diagnostic := Journal.diagnostics s.journal

/-- The stream `s'` was scanned before and `s` is scanned on demand; places that satisfy `L`
    were passed. -/
structure Alike (L : Location → Prop) (s s' : Stream) : Prop where
  head : s'.head = s.head
  rest : s'.rest = s.rest.map Scan.cleared
  rules : s'.rules = s.rules
  distinct : (s.head.location :: s.rest.filterMap Scan.location?).Pairwise
    fun l m => l.key ≠ m.key
  passed : ∀ l, L l → ∀ m ∈ s.rest.filterMap Scan.location?, l.key ≠ m.key
  reports : ∀ k, atKey k s'.diagnostics =
    atKey k (s.diagnostics ++ s.rest.filterMap Scan.diagnostic?)

variable {L L' : Location → Prop} {s s' : Stream}

theorem Alike.mono (h : Alike L s s') (hL : ∀ l, L' l → L l) : Alike L' s s' :=
  ⟨h.head, h.rest, h.rules, h.distinct, fun l hl => h.passed l (hL l hl), h.reports⟩

/-- The place of the head token is passed. -/
theorem Alike.at_head (h : Alike L s s') : Alike (Also L s.head.location) s s' where
  head := h.head
  rest := h.rest
  rules := h.rules
  distinct := h.distinct
  passed := by
    rintro l (hl | rfl)
    · exact h.passed l hl
    · exact (List.pairwise_cons.mp h.distinct).1
  reports := h.reports

/-- Events that report nothing leave streams alike. -/
theorem Alike.event (h : Alike L s s') (e e' : Event) (he : Journal.diagnostic? e = none)
    (he' : Journal.diagnostic? e' = none) :
    Alike L { s with journal := e :: s.journal } { s' with journal := e' :: s'.journal } where
  head := h.head
  rest := h.rest
  rules := h.rules
  distinct := h.distinct
  passed := h.passed
  reports := by
    intro k
    have hs : Journal.diagnostics (e :: s.journal) = s.diagnostics := by
      simp [Journal.diagnostics, he, diagnostics]
    have hs' : Journal.diagnostics (e' :: s'.journal) = s'.diagnostics := by
      simp [Journal.diagnostics, he', diagnostics]
    show atKey k (Journal.diagnostics (e' :: s'.journal)) =
      atKey k (Journal.diagnostics (e :: s.journal) ++ _)
    rw [hs, hs']
    exact h.reports k

theorem Alike.trace (h : Alike L s s') (a : Action) : Alike L (s.trace a) (s'.trace a) :=
  h.event _ _ rfl rfl

/-- A report at a place that was passed comes after the faults at that place in both. -/
theorem Alike.report (h : Alike L s s') (p : Problem) {l : Location} (hl : L l) :
    Alike L (s.report p l) (s'.report p l) where
  head := h.head
  rest := h.rest
  rules := h.rules
  distinct := h.distinct
  passed := h.passed
  reports := by
    intro k
    have hs : (s.report p l).diagnostics = s.diagnostics ++ [⟨.error, p, l⟩] :=
      Journal.diagnostics_report _ _
    have hs' : (s'.report p l).diagnostics = s'.diagnostics ++ [⟨.error, p, l⟩] :=
      Journal.diagnostics_report _ _
    have hrest : (s.report p l).rest = s.rest := rfl
    have hreports := h.reports k
    rw [hs, hs', hrest]
    simp only [atKey_append] at hreports ⊢
    rw [hreports]
    by_cases hk : l.key = k
    · -- no fault that lies ahead has this key
      have hnone : atKey k (s.rest.filterMap Scan.diagnostic?) = [] := by
        rw [atKey, List.filter_eq_nil_iff]
        intro d hd
        obtain ⟨x, hx, hxd⟩ := List.mem_filterMap.mp hd
        have hne : d.key ≠ k := by
          cases x with
          | overlong n => cases hxd
          | token t fault =>
            obtain ⟨q, -, rfl⟩ := Option.map_eq_some_iff.mp hxd
            rw [← hk]
            exact (h.passed l hl t.location (List.mem_filterMap.mpr ⟨_, hx, rfl⟩)).symm
        simpa using hne
      rw [hnone, List.append_nil, List.append_nil]
    · have hne : (⟨.error, p, l⟩ : Diagnostic).key ≠ k := hk
      have hnone : atKey k [(⟨.error, p, l⟩ : Diagnostic)] = [] := atKey_cons_ne hne []
      rw [hnone, List.append_nil, List.append_nil]

theorem Alike.report_head (h : Alike L s s') (p : Problem) :
    Alike L (s.report p s.head.location) (s'.report p s.head.location) :=
  (h.at_head.report p (.inr rfl)).mono fun _ => .inl

/-- Streams that move on to the same token: the first reports its fault, which the second did
    long ago. -/
theorem Alike.moved (h : Alike L s s') {t : Token} {fault : Option Problem} {rest : List Scan}
    (hrest : s.rest = .token t fault :: rest) :
    Alike L { s with head := t, rest := rest, journal := reported t fault s.journal }
      { s' with head := t, rest := rest.map Scan.cleared } where
  head := rfl
  rest := rfl
  rules := h.rules
  distinct := by
    have hdistinct := (List.pairwise_cons.mp h.distinct).2
    rw [hrest] at hdistinct
    exact hdistinct
  passed := by
    intro l hl m hm
    apply h.passed l hl m
    rw [hrest]
    exact List.mem_cons_of_mem _ hm
  reports := by
    intro k
    have hreported : Journal.diagnostics (reported t fault s.journal) =
        s.diagnostics ++ (Scan.diagnostic? (.token t fault)).toList :=
      Journal.diagnostics_reported t fault s.journal
    have hreports := h.reports k
    rw [hrest] at hreports
    show atKey k s'.diagnostics = atKey k (Journal.diagnostics (reported t fault s.journal) ++ _)
    rw [hreported, hreports, Scan.diagnostics_cons, List.append_assoc]

/-- Where the tokens run out, the end of the input stands at the last of them. -/
theorem Alike.ended (h : Alike L s s') (hrest : s.rest = []) :
    Alike L { s with head := .endOfFile s.head.location, rest := [] }
      { s' with head := .endOfFile s'.head.location, rest := [] } where
  head := by rw [h.head]
  rest := rfl
  rules := h.rules
  distinct := by simp
  passed := by simp
  reports := by
    intro k
    have hreports := h.reports k
    rw [hrest] at hreports
    exact hreports

/-! ### Operations -/

theorem headIs_congr (h : s'.head = s.head) {k : Kind} : s'.headIs k = s.headIs k := by
  rw [headIs, headIs, h]

theorem headIn_congr (h : s'.head = s.head) {kinds : KindSet} :
    s'.headIn kinds = s.headIn kinds := by
  rw [headIn, headIn, h]

theorem advance_agrees : Agrees (Alike L) advance := by
  intro s s' a u a' u' hs h h'
  unfold advance at h h'
  rw [headIs_congr hs.head, hs.rest] at h'
  by_cases hend : s.headIs .endOfFile = true
  · rw [if_pos hend] at h h'
    cases h
    cases h'
    exact ⟨rfl, hs⟩
  · rw [if_neg hend] at h h'
    cases hrest : s.rest with
    | nil =>
      rw [hrest] at h h'
      cases h
      cases h'
      exact ⟨rfl, hs.ended hrest⟩
    | cons x rest =>
      rw [hrest] at h h'
      cases x with
      | overlong n => cases h
      | token t fault =>
        cases h
        cases h'
        exact ⟨rfl, hs.moved hrest⟩

theorem consume_agrees : Agrees (Alike L) consume := by
  apply Agrees.bind
  · apply Agrees.modify
    intro s s' hs
    rw [hs.head]
    exact hs.trace _
  · exact fun _ => advance_agrees

theorem fatal_agrees {α : Type} {p : Problem} {l : Location} :
    Agrees (Alike L) (fatal p l : StreamM α) := by
  apply Agrees.never
  intro s a u h
  cases h

theorem check_agrees {condition : Bool} {a : Assertion} {l : Location} :
    Agrees (Alike L) (check condition a l) := by
  unfold check
  cases condition with
  | true => exact .pure
  | false => exact fatal_agrees

/-- Looking at the head token and the rules, which is all that an operation looks at. -/
theorem look_agrees {α : Type} {f : Stream → StreamM α}
    (hsame : ∀ s s' : Stream, s'.head = s.head → s'.rules = s.rules → f s' = f s)
    (hf : ∀ s, Agrees (Alike L) (f s)) : Agrees (Alike L) (get >>= f) := by
  apply Agrees.look id
  · intro s
    rfl
  · intro s s' hs
    exact hsame s s' hs.head hs.rules
  · exact hf

theorem name_agrees : Agrees (Alike L) name := by
  apply look_agrees
  · intro s s' hhead _
    rw [headIs_congr hhead, hhead]
  · intro s
    exact check_agrees.bind fun _ => .pure

theorem number_agrees : Agrees (Alike L) number := by
  apply look_agrees
  · intro s s' hhead _
    rw [headIs_congr hhead, hhead]
  · intro s
    exact check_agrees.bind fun _ => .pure

theorem expect_agrees {k : Kind} : Agrees (Alike L) (expect k) := by
  apply look_agrees
  · intro s s' hhead _
    rw [headIs_congr hhead, hhead]
  · intro s
    exact check_agrees.bind fun _ => consume_agrees

theorem report_head_agrees (problem : Token → Problem) :
    Agrees (Alike L)
      (modify fun s => s.report (problem s.head) s.head.location : StreamM Unit) := by
  apply Agrees.modify
  intro s s' hs
  rw [hs.head]
  exact hs.report_head _

theorem trace_agrees {a : Action} :
    Agrees (Alike L) (modify fun s => s.trace a : StreamM Unit) :=
  .modify fun _ _ hs => hs.trace a

/-! ### Skipping -/

theorem skipTo_agrees {find : KindSet} : Agrees (Alike L) (skipTo find) := by
  intro s s' a u a' u' hs h h'
  induction s using skipping_induction find generalizing s' with
  | stops s hstop =>
    rw [skipTo_stop hstop] at h
    rw [skipTo_stop (hs.head ▸ hstop)] at h'
    cases h
    cases h'
    exact ⟨rfl, hs⟩
  | goes s hout hne ih =>
    rw [skipTo_step hout hne] at h
    rw [skipTo_step (hs.head ▸ hout) (hs.head ▸ hne), hs.head] at h'
    obtain ⟨_, t, hadvance, hskip⟩ := ok_of_bind h
    obtain ⟨_, t', hadvance', hskip'⟩ := ok_of_bind h'
    obtain ⟨-, ht⟩ := advance_agrees _ _ _ _ _ _ (hs.trace (.skipped s.head)) hadvance hadvance'
    obtain rfl : t = s.skipped := advance_ok hadvance
    exact ih t' ht hskip hskip'

theorem closeOver_alike {rules : List String} {rest : List Scan} {openCount : Nat}
    {head : Token} {j j' : Journal} {a a' : Unit} {u u' : Stream}
    (hs : Alike L ⟨head, rest, rules, j⟩ ⟨head, rest.map Scan.cleared, rules, j'⟩)
    (h : closeOver rules openCount head rest j = .ok a u)
    (h' : closeOver rules openCount head (rest.map Scan.cleared) j' = .ok a' u') :
    Alike L u u' := by
  induction rest generalizing openCount head j j' with
  | nil =>
    unfold closeOver at h h'
    split at h
    · rename_i hstop
      rw [if_pos hstop] at h'
      cases h
      cases h'
      exact hs
    · rename_i hgo
      rw [if_neg hgo] at h'
      cases h
      cases h'
      exact (hs.event _ _ rfl rfl).ended rfl
  | cons x rest ih =>
    unfold closeOver at h h'
    split at h
    · rename_i hstop
      rw [if_pos hstop] at h'
      cases h
      cases h'
      exact hs
    · rename_i hgo
      rw [if_neg hgo] at h'
      cases x with
      | overlong n => cases h
      | token t fault =>
        have htraced := hs.event (.trace rules.length (.matched head))
          (.trace rules.length (.matched head)) rfl rfl
        have hnext := htraced.moved (t := t) rfl
        have hmap : (Scan.token t fault :: rest).map Scan.cleared =
            .token t none :: rest.map Scan.cleared := rfl
        rw [hmap] at h'
        dsimp only at h h'
        by_cases hleft : (head.kind == .leftParen) = true
        · rw [if_pos hleft] at h h'
          exact ih hnext h h'
        · rw [if_neg hleft] at h h'
          by_cases hright : (head.kind == .rightParen) = true
          · rw [if_pos hright] at h h'
            cases openCount with
            | zero =>
              cases h
              cases h'
              exact hnext
            | succ n => exact ih hnext h h'
          · rw [if_neg hright] at h h'
            exact ih hnext h h'

theorem skipParenthesised_agrees : Agrees (Alike L) skipParenthesised := by
  rintro ⟨head, rest, rules, j⟩ ⟨head', rest', rules', j'⟩ a u a' u' hs h h'
  obtain rfl : head' = head := hs.head
  obtain rfl : rest' = rest.map Scan.cleared := hs.rest
  obtain rfl : rules' = rules := hs.rules
  exact ⟨rfl, closeOver_alike hs h h'⟩

theorem demand_agrees {k : Kind} {follow : KindSet} : Agrees (Alike L) (demand k follow) := by
  apply look_agrees
  · intro s s' hhead _
    rw [headIs_congr hhead]
  · intro s
    split
    · exact consume_agrees.bind fun _ => .pure
    · apply Agrees.bind (report_head_agrees fun _ => .expecting k)
      intro _
      apply skipTo_agrees.bind
      intro _
      apply look_agrees
      · intro s s' hhead _
        rw [headIs_congr hhead]
      · intro s
        split
        · exact trace_agrees.bind fun _ => consume_agrees.bind fun _ => .pure
        · exact .pure

/-! ### Rule brackets -/

theorem pushRule_agrees {rule : String} : Agrees (Alike L) (pushRule rule) := by
  apply Agrees.modify
  intro s s' hs
  have ht := hs.trace (.opened rule)
  exact ⟨ht.head, ht.rest, congrArg (rule :: ·) ht.rules, ht.distinct, ht.passed, ht.reports⟩

theorem beginCertain_agrees {rule : String} {starts : KindSet} :
    Agrees (Alike L) (beginCertain rule starts) := by
  apply look_agrees
  · intro s s' hhead _
    rw [headIn_congr hhead, hhead]
  · intro s
    exact check_agrees.bind fun _ => pushRule_agrees

theorem beginRule_agrees {rule : String} {starts recover : KindSet} :
    Agrees (Alike L) (beginRule rule starts recover) := by
  apply look_agrees
  · intro s s' hhead _
    rw [headIn_congr hhead]
  · intro s
    split
    · exact pushRule_agrees.bind fun _ => .pure
    · apply Agrees.bind (report_head_agrees fun t => .cannotStart rule t)
      intro _
      apply skipTo_agrees.bind
      intro _
      apply look_agrees
      · intro s s' hhead _
        rw [headIn_congr hhead]
      · intro s
        split
        · exact pushRule_agrees.bind fun _ => .pure
        · exact trace_agrees.bind fun _ => .pure

theorem endRule_agrees {rule : String} {recover : KindSet} :
    Agrees (Alike L) (endRule rule recover) := by
  apply look_agrees
  · intro s s' _ hrules
    simp only [hrules]
  · intro s
    apply Agrees.bind
    · apply Agrees.modify
      intro s s' hs
      exact ⟨hs.head, hs.rest, congrArg List.tail hs.rules, hs.distinct, hs.passed, hs.reports⟩
    · intro _
      apply look_agrees
      · intro s s' hhead _
        simp only [hhead]
      · intro s
        apply check_agrees.bind
        intro _
        apply trace_agrees.bind
        intro _
        apply look_agrees
        · intro s s' hhead _
          rw [headIn_congr hhead]
        · intro s
          split
          · exact .pure
          · apply Agrees.bind (report_head_agrees fun t => .cannotFollow t rule)
            exact fun _ => skipTo_agrees

end Stream

end PlZero
