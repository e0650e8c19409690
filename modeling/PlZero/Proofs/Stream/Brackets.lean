/-
  PlZero/Proofs/Stream/Brackets.lean
  ==================================
  **Rules that are begun and ended.**  Beginning a rule leads to the first token that can start
  it, that its caller waits for, or that ends the input; the rule is entered if and only if this
  token can start it.  Ending a rule leads to the first token that can follow it or ends the
  input.  Either reports one error if the head token is not the right one, however near the right
  one is.

  `Caller` are the readers that end what they begin: after each answer they may go on as they
  like, but a rule that was entered is ended under its name, and one that was not is not.  No
  assertion of a caller is broken, and it leaves the rules that are being read as they were
  (`rules_balanced`, by induction on the caller).
-/
import PlZero.Proofs.Stream.Recovering

namespace PlZero.Stream

variable {s u : Stream} {rule : String} {starts recover : KindSet} {k : Kind}

/-! ### Beginning a rule -/

theorem beginRule_error {a : Abort} (h : beginRule rule starts recover s = .error a u) :
    u.rules = s.rules ∧ ∃ n, a = .longDigitRun n ∧ Scan.overlong n ∈ s.rest := by
  by_cases hhere : s.head.kind ∈ starts
  · rw [beginRule_here rule recover hhere] at h
    cases h
  · rw [beginRule_missing rule recover hhere] at h
    rcases error_of_bind h with hskip | ⟨_, t, -, hrest⟩
    · exact skipTo_error (s := s.report _ _) hskip
    · change (if t.headIn starts = true then _ else _ : StreamM Bool) t = _ at hrest
      split at hrest <;> cases hrest

/-- Beginning a rule leads to the first token that is looked for. -/
theorem beginRule_reached {b : Bool} (h : beginRule rule starts recover s = .ok b u) :
    ∃ t, Reached (starts ∪ recover) (if s.head.kind ∈ starts then []
        else [⟨.error, .cannotStart rule s.head, s.head.location⟩]) s t ∧
      (t.head.kind ∈ starts ∧ b = true ∧ u = t.opened rule ∨
        t.head.kind ∉ starts ∧ b = false ∧ u = t.trace (.abandoned rule)) := by
  by_cases hhere : s.head.kind ∈ starts
  · rw [beginRule_here rule recover hhere] at h
    cases h
    rw [if_pos hhere]
    exact ⟨s, .here (KindSet.mem_union.mpr (.inl hhere)), .inl ⟨hhere, rfl, rfl⟩⟩
  · rw [beginRule_missing rule recover hhere] at h
    obtain ⟨_, t, hskip, hrest⟩ := ok_of_bind h
    change (if t.headIn starts = true then _ else _ : StreamM Bool) t = _ at hrest
    rw [if_neg hhere]
    refine ⟨t, .missing hskip, ?_⟩
    by_cases hfound : t.head.kind ∈ starts
    · rw [if_pos (headIn_iff.mpr hfound)] at hrest
      cases hrest
      exact .inl ⟨hfound, rfl, rfl⟩
    · rw [if_neg (mt headIn_iff.mp hfound)] at hrest
      cases hrest
      exact .inr ⟨hfound, rfl, rfl⟩

/-! ### Ending a rule -/

theorem endRule_error {a : Abort} (hrule : s.rules.head? = some rule)
    (h : endRule rule recover s = .error a u) :
    ∃ n, a = .longDigitRun n ∧ Scan.overlong n ∈ s.rest := by
  rw [endRule_innermost recover hrule] at h
  split at h
  · cases h
  · exact (skipTo_error (s := (s.closed rule).report (.cannotFollow s.head rule) s.head.location)
      h).2

/-- Ending a rule leads to the first token that can follow it. -/
theorem endRule_reached {x : Unit} (hrule : s.rules.head? = some rule)
    (h : endRule rule recover s = .ok x u) :
    Reached recover (if s.head.kind ∈ recover then []
      else [⟨.error, .cannotFollow s.head rule, s.head.location⟩]) (s.closed rule) u := by
  rw [endRule_innermost recover hrule] at h
  by_cases hhere : s.head.kind ∈ recover
  · rw [if_pos (headIn_iff.mpr hhere)] at h
    cases h
    rw [if_pos hhere]
    exact .here (s := s.closed rule) hhere
  · rw [if_neg (mt headIn_iff.mp hhere)] at h
    rw [if_neg hhere]
    exact .missing h

/-! ### Callers -/

/-- A reader that ends the rules that it begins.  What it does next depends on what it was
    answered and on the head token.  What it does inside a rule is a reader of its own, whose
    result is handed on when the rule is ended. -/
inductive Caller : Type → Type 1
  | done {α : Type} (result : α) : Caller α
  | look {α : Type} (next : Token → Caller α) : Caller α
  | accept {α : Type} (kind : Kind) (next : Bool → Caller α) : Caller α
  | demand {α : Type} (kind : Kind) (follow : KindSet) (next : Bool → Caller α) : Caller α
  | skipTo {α : Type} (find : KindSet) (next : Caller α) : Caller α
  | bracket {α β : Type} (rule : String) (starts recover follow : KindSet) (inside : Caller β)
      (next : Option β → Caller α) : Caller α

/-- What a caller does with a stream. -/
def Caller.read {α : Type} : Caller α → StreamM α
  | .done result => return result
  | .look next => do (next (← get).head).read
  | .accept k next => do
    if (← get).headIs k then
      expect k
      (next true).read
    else
      (next false).read
  | .demand k follow next => do (next (← Stream.demand k follow)).read
  | .skipTo find next => do
    Stream.skipTo find
    next.read
  | .bracket rule starts recover follow inside next => do
    if ← beginRule rule starts recover then
      let result ← inside.read
      endRule rule follow
      (next (some result)).read
    else
      (next none).read

/-! ### What is left open -/

/-- Where the rules `before` are being read, an operation that returns `x` leaves `after x`.  It
    ends the run only at digits too long to read. -/
structure Leaves {α : Type} (before : List String) (m : StreamM α) (after : α → List String) :
    Prop where
  returns : ∀ s x u, s.rules = before → m s = .ok x u → u.rules = after x ∧ u.rest <:+ s.rest
  ends : ∀ s a u, s.rules = before → m s = .error a u →
    ∃ n, a = .longDigitRun n ∧ Scan.overlong n ∈ s.rest

section

variable {α β : Type} {rules : List String} {after : α → List String} {final : β → List String}
  {m : StreamM α} {f : α → StreamM β} {find follow : KindSet}

theorem Leaves.pure (x : α) (hx : after x = rules) : Leaves rules (pure x) after where
  returns := by
    intro s y t hs h
    cases h
    exact ⟨hs.trans hx.symm, List.suffix_refl _⟩
  ends := by
    intro s a t hs h
    cases h

theorem Leaves.bind (hm : Leaves rules m after) (hf : ∀ x, Leaves (after x) (f x) final) :
    Leaves rules (m >>= f) final where
  returns := by
    intro s y u hs h
    obtain ⟨x, t, hx, hy⟩ := ok_of_bind h
    obtain ⟨hrules, hrest⟩ := hm.returns s x t hs hx
    obtain ⟨hrules', hrest'⟩ := (hf x).returns t y u hrules hy
    exact ⟨hrules', hrest'.trans hrest⟩
  ends := by
    intro s a u hs h
    rcases error_of_bind h with hends | ⟨x, t, hx, hends⟩
    · exact hm.ends s a u hs hends
    · obtain ⟨hrules, hrest⟩ := hm.returns s x t hs hx
      obtain ⟨n, ha, hn⟩ := (hf x).ends t a u hrules hends
      exact ⟨n, ha, hrest.subset hn⟩

/-- Looking at the stream before anything is done. -/
theorem Leaves.look {f : Stream → StreamM β}
    (hf : ∀ s, s.rules = rules → ∃ m, f s s = m s ∧ Leaves rules m final) :
    Leaves rules (get >>= f) final where
  returns := by
    intro s y u hs h
    obtain ⟨m, hm, hleaves⟩ := hf s hs
    exact hleaves.returns s y u hs (hm ▸ h)
  ends := by
    intro s a u hs h
    obtain ⟨m, hm, hleaves⟩ := hf s hs
    exact hleaves.ends s a u hs (hm ▸ h)

theorem consume_leaves : Leaves rules consume fun _ => rules where
  returns := by
    intro s x u hs h
    have hfurther := consume_further h
    exact ⟨hfurther.rules.trans hs, hfurther.rest⟩
  ends := fun _ _ _ _ h => (consume_error h).2

theorem skipTo_leaves : Leaves rules (skipTo find) fun _ => rules where
  returns := by
    intro s x u hs h
    obtain ⟨_, hfurther, -⟩ := skipTo_further h
    exact ⟨hfurther.rules.trans hs, hfurther.rest⟩
  ends := fun _ _ _ _ h => (skipTo_error h).2

theorem demand_leaves : Leaves rules (demand k follow) fun _ => rules where
  returns := by
    intro s b u hs h
    obtain ⟨t, hreached, -, ⟨-, -, hfurther⟩ | ⟨-, -, rfl⟩⟩ := demand_reached h
    · exact ⟨(hfurther.rules.trans hreached.rules).trans hs, hfurther.rest.trans hreached.rest⟩
    · exact ⟨hreached.rules.trans hs, hreached.rest⟩
  ends := fun _ _ _ _ h => (demand_error h).2

theorem beginRule_leaves :
    Leaves rules (beginRule rule starts recover) fun b => if b then rule :: rules else rules where
  returns := by
    intro s b u hs h
    obtain ⟨t, hreached, ⟨-, rfl, rfl⟩ | ⟨-, rfl, rfl⟩⟩ := beginRule_reached h
    · exact ⟨congrArg (rule :: ·) (hreached.rules.trans hs), hreached.rest⟩
    · exact ⟨hreached.rules.trans hs, hreached.rest⟩
  ends := fun _ _ _ _ h => (beginRule_error h).2

theorem endRule_leaves : Leaves (rule :: rules) (endRule rule follow) fun _ => rules where
  returns := by
    intro s x u hs h
    have hreached := endRule_reached (hs ▸ rfl) h
    refine ⟨hreached.rules.trans ?_, hreached.rest⟩
    exact congrArg List.tail hs
  ends := fun s _ _ hs h => endRule_error (s := s) (hs ▸ rfl) h

end

/-- A caller leaves the rules that are being read as they were, by induction on the caller. -/
theorem Caller.leaves {α : Type} (c : Caller α) (rules : List String) :
    Leaves rules c.read fun _ => rules := by
  induction c generalizing rules with
  | done result => exact .pure result rfl
  | look next ih => exact .look fun s _ => ⟨_, rfl, ih s.head rules⟩
  | accept k next ih =>
    refine .look fun s _ => ?_
    by_cases hk : s.headIs k = true
    · -- the check passes where the caller has looked
      refine ⟨do consume; (next true).read, ?_, consume_leaves.bind fun _ => ih true rules⟩
      have hexpect : expect k s = consume s := bind_of_ok (m := check _ _ _) (check_of_true hk)
      rw [if_pos hk]
      simp only [bind, EStateM.bind, hexpect]
    · exact ⟨(next false).read, by rw [if_neg hk], ih false rules⟩
  | demand k follow next ih => exact demand_leaves.bind fun b => ih b rules
  | skipTo find next ih => exact skipTo_leaves.bind fun _ => ih rules
  | bracket rule starts recover follow inside next ih ih' =>
    refine beginRule_leaves.bind fun b => ?_
    cases b with
    | true => exact (ih (rule :: rules)).bind fun x => endRule_leaves.bind fun _ => ih' _ rules
    | false => exact ih' none rules

/-- A rule is entered if and only if the first token that is looked for can start it, and one error
    is reported if and only if the old head cannot.  A rule that is ended is closed, and one error
    is reported if and only if the old head cannot follow it.  Either way the token that was found
    is the head.  Readers that end what they begin return, break no assertion, and leave the rules
    that are being read as they were. -/
theorem rules_balanced :
    (∀ rule starts recover s,
      (s.Clear → ∃ b t, beginRule rule starts recover s = .ok b t) ∧
      (∀ a t, beginRule rule starts recover s = .error a t →
        t.rules = s.rules ∧ ∃ n, a = .longDigitRun n ∧ Scan.overlong n ∈ s.rest) ∧
      ∀ b t, beginRule rule starts recover s = .ok b t → ∃ found behind pulled,
        s.reach (starts ∪ recover) = found :: behind ∧
        (found.kind ∈ starts ∨ found.kind ∈ recover ∨ found.kind = .endOfFile) ∧
        (b = true ↔ found.kind ∈ starts) ∧
        t.head = found ∧ t.unread = found :: behind ∧
        t.rules = (if b = true then rule :: s.rules else s.rules) ∧
        s.rest = pulled ++ t.rest ∧
        t.diagnostics = s.diagnostics ++ (if s.head.kind ∈ starts then []
          else [⟨.error, .cannotStart rule s.head, s.head.location⟩]) ++
          pulled.filterMap Scan.diagnostic?) ∧
    (∀ rule rules recover s, s.rules = rule :: rules →
      (s.Clear → ∃ t, endRule rule recover s = .ok () t) ∧
      (∀ a t, endRule rule recover s = .error a t →
        ∃ n, a = .longDigitRun n ∧ Scan.overlong n ∈ s.rest) ∧
      ∀ t, endRule rule recover s = .ok () t → ∃ found behind pulled,
        s.reach recover = found :: behind ∧
        (found.kind ∈ recover ∨ found.kind = .endOfFile) ∧
        t.head = found ∧ t.unread = found :: behind ∧ t.rules = rules ∧
        s.rest = pulled ++ t.rest ∧
        t.diagnostics = s.diagnostics ++ (if s.head.kind ∈ recover then []
          else [⟨.error, .cannotFollow s.head rule, s.head.location⟩]) ++
          pulled.filterMap Scan.diagnostic?) ∧
    ∀ {α : Type} (c : Caller α) (s : Stream),
      (s.Clear → ∃ x t, c.read s = .ok x t) ∧
      (∀ a t, c.read s = .error a t → ∃ n, a = .longDigitRun n ∧ Scan.overlong n ∈ s.rest) ∧
      ∀ x t, c.read s = .ok x t → t.rules = s.rules := by
  refine ⟨?_, ?_, ?_⟩
  · intro rule starts recover s
    refine ⟨fun hclear => returns_of_clear hclear fun a t h => (beginRule_error h).2,
      fun a t => beginRule_error, ?_⟩
    intro b t h
    obtain ⟨v, hreached, hbehind⟩ := beginRule_reached h
    obtain ⟨pulled, hrest, hdiagnostics⟩ := hreached.pulled
    have hkinds : v.head.kind ∈ starts ∨ v.head.kind ∈ recover ∨ v.head.kind = .endOfFile := by
      rw [← or_assoc, ← KindSet.mem_union]
      exact hreached.stop
    refine ⟨v.head, v.unread.tail, pulled, hreached.reach, hkinds, ?_⟩
    rcases hbehind with ⟨hin, rfl, rfl⟩ | ⟨hout, rfl, rfl⟩
    · exact ⟨iff_of_true rfl hin, rfl, rfl, congrArg (rule :: ·) hreached.rules, hrest,
        (Journal.diagnostics_trace _ _ _).trans hdiagnostics⟩
    · exact ⟨iff_of_false Bool.false_ne_true hout, rfl, rfl, hreached.rules, hrest,
        (Journal.diagnostics_trace _ _ _).trans hdiagnostics⟩
  · intro rule rules recover s hs
    have hrule : s.rules.head? = some rule := hs ▸ rfl
    have hends : ∀ a t, endRule rule recover s = .error a t →
        ∃ n, a = .longDigitRun n ∧ Scan.overlong n ∈ s.rest := fun a t => endRule_error hrule
    refine ⟨fun hclear => ?_, hends, ?_⟩
    · obtain ⟨_, t, ht⟩ := returns_of_clear hclear hends
      exact ⟨t, ht⟩
    · intro t h
      have hreached := endRule_reached hrule h
      obtain ⟨pulled, hrest, hdiagnostics⟩ := hreached.pulled
      have hclosed : (s.closed rule).diagnostics = s.diagnostics := Journal.diagnostics_trace _ _ _
      exact ⟨t.head, t.unread.tail, pulled, hreached.reach, hreached.stop, rfl, rfl,
        hreached.rules.trans (congrArg List.tail hs), hrest, hclosed ▸ hdiagnostics⟩
  · intro α c s
    have hleaves := c.leaves s.rules
    exact ⟨fun hclear => returns_of_clear hclear fun a t => hleaves.ends s a t rfl,
      fun a t => hleaves.ends s a t rfl, fun x t h => (hleaves.returns s x t rfl h).1⟩

/-- The rule cannot start at the comma, but behind it.  It ends where the tokens run out, and the
    end of the input cannot follow it. -/
example :
    let tokens : List Scan := [.token ⟨.identifier, .unknown, .absent⟩ none]
    let caller : Caller Bool := .bracket "Variable" {.identifier} {.semicolon} {.semicolon}
      (.accept .identifier .done) fun accepted => .done (accepted == some true)
    (match caller.read ⟨⟨.comma, .unknown, .absent⟩, tokens, ["Block"], []⟩ with
      | .ok found t => some (found, t.head.kind, t.rules, t.reports.length)
      | .error _ _ => none) = some (true, .endOfFile, ["Block"], 2) := by
  decide +kernel

end PlZero.Stream
