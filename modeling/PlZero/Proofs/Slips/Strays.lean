/-
  PlZero/Proofs/Slips/Strays.lean
  ===============================
  **What the operations on a stream do before strays.**  A stream holds tokens if its head is the
  first of them, the others are to be scanned behind it, and none has a fault.  Where illegal
  tokens stand before the token that an operation looks for, and that it would not stop at, the
  operation says so once, passes over them, and does what it does without them (`Over`).
-/
import PlZero.Proofs.Slips.Script
import PlZero.Proofs.Stream.Past

namespace PlZero.Stream

variable {s v : Stream} {ts us strays : List Token} {t x : Token} {k : Kind} {p : Problem}
  {rule : String} {find starts recover follow : KindSet}

/-! ### Streams of tokens without faults -/

/-- The tokens of a stream, from the head on. -/
def Holds (ts : List Token) (s : Stream) : Prop :=
  ∃ us, ts = s.head :: us ∧ s.rest = us.map fun t => .token t none

theorem Holds.head (h : s.Holds (t :: ts)) : s.head = t := by
  obtain ⟨us, htokens, -⟩ := h
  exact (List.cons.inj htokens).1.symm

theorem Holds.clear (h : s.Holds ts) : s.Clear := by
  obtain ⟨us, -, hrest⟩ := h
  intro n hn
  simp [hrest] at hn

theorem Holds.faultless (h : s.Holds ts) : s.Faultless := by
  obtain ⟨us, -, hrest⟩ := h
  intro t fault ht
  rw [hrest] at ht
  obtain ⟨u, -, hu⟩ := List.mem_map.mp ht
  cases hu
  rfl

theorem Holds.next (h : s.Holds (t :: x :: us)) (hne : t.kind ≠ .endOfFile) :
    s.next.Holds (x :: us) := by
  obtain ⟨head, rest, rules, journal⟩ := s
  obtain ⟨ts, htokens, hrest⟩ := h
  obtain ⟨rfl, rfl⟩ := List.cons.inj htokens
  dsimp only at hrest hne
  subst hrest
  rw [List.map_cons, next_token hne]
  exact ⟨us, rfl, rfl⟩

theorem Holds.consumed (h : s.Holds (t :: x :: us)) (hne : t.kind ≠ .endOfFile) :
    s.consumed.Holds (x :: us) :=
  Holds.next (s := s.trace _) h hne

/-- A skip passes over what it does not look for. -/
theorem Holds.skipTo (h : s.Holds (strays ++ t :: us))
    (hout : ∀ u ∈ strays, u.kind ∉ find ∧ u.kind ≠ .endOfFile) (ht : t.kind ∈ find) :
    Stream.skipTo find s = .ok () (past strays.length s) ∧
      (past strays.length s).Holds (t :: us) := by
  induction strays generalizing s with
  | nil => exact ⟨skipTo_stop (.inl (h.head ▸ ht)), h⟩
  | cons x strays ih =>
    obtain ⟨hx, hne⟩ := hout x List.mem_cons_self
    have hskipped : s.skipped.Holds (strays ++ t :: us) := by
      cases strays with
      | nil => exact Holds.next (s := s.trace _) h hne
      | cons y strays => exact Holds.next (s := s.trace _) h hne
    obtain ⟨hrun, hholds⟩ := ih hskipped fun u hu => hout u (List.mem_cons_of_mem _ hu)
    exact ⟨(skipTo_goes h.clear (h.head ▸ hx) (h.head ▸ hne)).trans hrun, hholds⟩

/-! ### Passing over strays -/

/-- One stream comes from another by passing over strays, which is reported once if there are
    any, and holds the tokens behind. -/
structure Over (strays ts : List Token) (s v : Stream) : Prop where
  holds : v.Holds ts
  rules : v.rules = s.rules
  reports : ∃ ds, v.reports = ds ++ s.reports ∧ List.Forall₂ Slip.Reported (Slip.ofStrays strays) ds

theorem Over.refl (h : s.Holds ts) : Over [] ts s s := ⟨h, rfl, [], rfl, .nil⟩

/-- A mistake in syntax is reported at the first of the strays, and they are skipped. -/
theorem Holds.skip_strays (h : s.Holds ((x :: strays) ++ t :: us))
    (hstrays : ∀ u ∈ x :: strays, u.kind = .illegal) (hout : .illegal ∉ find) (ht : t.kind ∈ find)
    (hp : p.ofSyntax = true) : ∃ v, Stream.skipTo find (s.report p s.head.location) = .ok () v ∧
      Over (x :: strays) (t :: us) s v := by
  have hreported : (s.report p s.head.location).Holds ((x :: strays) ++ t :: us) := h
  have hpassed : ∀ u ∈ x :: strays, u.kind ∉ find ∧ u.kind ≠ .endOfFile := by
    intro u hu
    rw [hstrays u hu]
    exact ⟨hout, nofun⟩
  obtain ⟨hrun, hholds⟩ := hreported.skipTo hpassed ht
  refine ⟨_, hrun, hholds, past_rules _ _, [⟨.error, p, x.location⟩], ?_, ?_⟩
  · rw [past_reports _ hreported.faultless, reports_report, h.head]
    rfl
  · exact .cons ⟨rfl, rfl, hp, nofun⟩ .nil

section

variable (h : s.Holds (strays ++ t :: us)) (hstrays : ∀ u ∈ strays, u.kind = .illegal)
include h hstrays

/-- A rule is entered behind strays. -/
theorem beginRule_over (hstarts : .illegal ∉ starts) (hrecover : .illegal ∉ recover)
    (ht : t.kind ∈ starts) : ∃ v, beginRule rule starts recover s = .ok true (v.opened rule) ∧
      Over strays (t :: us) s v := by
  cases strays with
  | nil => exact ⟨s, beginRule_here rule recover (h.head ▸ ht), .refl h⟩
  | cons x strays =>
    have hhead : s.head.kind = .illegal := h.head ▸ hstrays x List.mem_cons_self
    have hout : .illegal ∉ starts ∪ recover := by
      rw [KindSet.mem_union, not_or]
      exact ⟨hstarts, hrecover⟩
    obtain ⟨v, hskip, hover⟩ := h.skip_strays (p := .cannotStart rule s.head) hstrays hout
      (KindSet.mem_union.mpr (.inl ht)) rfl
    refine ⟨v, ?_, hover⟩
    rw [beginRule_missing rule recover (hhead ▸ hstarts)]
    refine (bind_of_ok (m := skipTo _) hskip).trans ?_
    show (if v.headIn starts = true then _ else _ : StreamM Bool) v = _
    rw [if_pos (headIn_iff.mpr (hover.holds.head ▸ ht))]
    rfl

/-- A rule is left behind strays. -/
theorem endRule_over (hrule : s.rules.head? = some rule) (hrecover : .illegal ∉ recover)
    (ht : t.kind ∈ recover) : ∃ v, endRule rule recover s = .ok () v ∧
      Over strays (t :: us) (s.closed rule) v := by
  cases strays with
  | nil =>
    refine ⟨s.closed rule, ?_, .refl h⟩
    rw [endRule_innermost recover hrule, if_pos (headIn_iff.mpr (h.head ▸ ht))]
    rfl
  | cons x strays =>
    have hhead : s.head.kind = .illegal := h.head ▸ hstrays x List.mem_cons_self
    obtain ⟨v, hskip, hover⟩ := Holds.skip_strays (s := s.closed rule)
      (p := .cannotFollow s.head rule) h hstrays hrecover ht rfl
    refine ⟨v, ?_, hover⟩
    rw [endRule_innermost recover hrule, if_neg (mt headIn_iff.mp (hhead ▸ hrecover))]
    exact hskip

/-- A token that is asked for is found behind strays, and taken. -/
theorem demand_over (hfollow : .illegal ∉ follow) (hk : k ≠ .illegal) (ht : t.kind = k) :
    ∃ v, demand k follow s = .ok true v.consumed ∧ Over strays (t :: us) s v := by
  cases strays with
  | nil =>
    refine ⟨s, ?_, .refl h⟩
    rw [demand_here follow (h.head ▸ ht)]
    exact bind_of_ok (consume_eq h.clear)
  | cons x strays =>
    have hhead : s.head.kind = .illegal := h.head ▸ hstrays x List.mem_cons_self
    have hout : .illegal ∉ follow ∪ .singleton k := by
      rw [KindSet.mem_union, KindSet.mem_singleton, not_or]
      exact ⟨hfollow, hk.symm⟩
    obtain ⟨v, hskip, hover⟩ := h.skip_strays (p := .expecting k) hstrays hout
      (KindSet.mem_union.mpr (.inr (KindSet.mem_singleton.mpr ht))) rfl
    refine ⟨v.trace (.resynchronised k), ?_, hover.holds, hover.rules, hover.reports⟩
    rw [demand_missing follow (hhead ▸ hk.symm)]
    refine (bind_of_ok (m := skipTo _) hskip).trans ?_
    show (if v.headIs k = true then _ else _ : StreamM Bool) v = _
    rw [if_pos (headIs_iff.mpr (hover.holds.head ▸ ht))]
    exact bind_of_ok (m := consume) (consume_eq (s := v.trace _) hover.holds.clear)

end

/-- Where `found` stands in the place of a token that is asked for, and may follow it or stands
    before one that may, this is reported at `found` and nothing is taken. -/
theorem demand_instead {found : List Token} {u : Token} (h : s.Holds (found ++ u :: us))
    (hfound : ∀ x ∈ found, x.kind ∉ follow ∪ .singleton k ∧ x.kind ≠ .endOfFile)
    (hu : u.kind ∈ follow) (hk : k ∉ follow) :
    ∃ v, demand k follow s = .ok false v ∧ v.Holds (u :: us) ∧ v.rules = s.rules ∧
      v.reports = ⟨.error, .expecting k, s.head.location⟩ :: s.reports := by
  have hhead : s.head.kind ≠ k := by
    cases found with
    | nil =>
      rw [h.head]
      rintro rfl
      exact hk hu
    | cons x found =>
      rw [h.head]
      rintro rfl
      exact (hfound x List.mem_cons_self).1
        (KindSet.mem_union.mpr (.inr (KindSet.mem_singleton.mpr rfl)))
  have hreported : (s.report (.expecting k) s.head.location).Holds (found ++ u :: us) := h
  obtain ⟨hskip, hholds⟩ := hreported.skipTo hfound (KindSet.mem_union.mpr (.inl hu))
  refine ⟨_, ?_, hholds, past_rules _ _, past_reports _ hreported.faultless⟩
  rw [demand_missing follow hhead]
  refine (bind_of_ok (m := skipTo _) hskip).trans ?_
  have hother : (past found.length (s.report (.expecting k) s.head.location)).head.kind ≠ k := by
    rw [hholds.head]
    rintro rfl
    exact hk hu
  show (if headIs _ k = true then _ else _ : StreamM Bool) _ = _
  rw [if_neg (mt headIs_iff.mp hother)]
  rfl

end PlZero.Stream
