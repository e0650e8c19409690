/-
  PlZero/Proofs/Stream/Recovering.lean
  ====================================
  **Asking for a token that may be missing.**  If the head token is of the kind that is asked
  for, it is consumed and nothing is said.  If not, that is reported once, at the head token, and
  the tokens are skipped up to the first that is of this kind, can follow, or ends the input.  It
  is consumed if it is of this kind, and otherwise left for the caller (`demand_recovers`).

  The end of the input may be asked for like any other token.  It stays the head.
-/
import PlZero.Proofs.Stream.Unread

namespace PlZero.Stream

variable {s u : Stream} {k : Kind} {follow : KindSet}

/-- Asking for a token ends the run only at digits too long to read. -/
theorem demand_error {a : Abort} (h : demand k follow s = .error a u) :
    u.rules = s.rules ∧ ∃ n, a = .longDigitRun n ∧ Scan.overlong n ∈ s.rest := by
  by_cases hhere : s.head.kind = k
  · rw [demand_here follow hhere] at h
    rcases error_of_bind h with hconsume | ⟨_, t, -, hreturn⟩
    · exact consume_error hconsume
    · cases hreturn
  · rw [demand_missing follow hhere] at h
    rcases error_of_bind h with hskip | ⟨_, t, hskip, hrest⟩
    · exact skipTo_error (s := s.report _ _) hskip
    · obtain ⟨_, hfurther, -⟩ := skipTo_further hskip
      change (if t.headIs k = true then _ else _ : StreamM Bool) t = _ at hrest
      split at hrest
      · -- only the token that was found is left to consume
        rcases error_of_bind hrest with hmodify | ⟨_, v, hmodify, hrest⟩
        · cases hmodify
        · cases hmodify
          rcases error_of_bind hrest with hconsume | ⟨_, w, -, hreturn⟩
          · obtain ⟨hrules, n, ha, hn⟩ := consume_error hconsume
            exact ⟨hrules.trans hfurther.rules, n, ha, hfurther.rest.subset hn⟩
          · cases hreturn
      · cases hrest

/-- Asking for a token leads to the first token that is looked for.  It is consumed if it is of
    the kind; that nothing else is reported on the way is said of both. -/
theorem demand_reached {b : Bool} (h : demand k follow s = .ok b u) :
    ∃ t, Reached (follow ∪ .singleton k)
        (if s.head.kind = k then [] else [⟨.error, .expecting k, s.head.location⟩]) s t ∧
      (s.head.kind = k → t = s) ∧
      (t.head.kind = k ∧ b = true ∧ Further t.taken t u ∨
        t.head.kind ≠ k ∧ b = false ∧ u = t) := by
  by_cases hhere : s.head.kind = k
  · rw [demand_here follow hhere] at h
    obtain ⟨_, t, hconsume, hreturn⟩ := ok_of_bind h
    cases hreturn
    rw [if_pos hhere]
    have hfound : s.head.kind ∈ follow ∪ .singleton k :=
      KindSet.mem_union.mpr (.inr (KindSet.mem_singleton.mpr hhere))
    exact ⟨s, .here hfound, fun _ => rfl, .inl ⟨hhere, rfl, consume_further hconsume⟩⟩
  · rw [demand_missing follow hhere] at h
    obtain ⟨_, t, hskip, hrest⟩ := ok_of_bind h
    change (if t.headIs k = true then _ else _ : StreamM Bool) t = _ at hrest
    rw [if_neg hhere]
    refine ⟨t, .missing hskip, fun hk => absurd hk hhere, ?_⟩
    by_cases hfound : t.head.kind = k
    · rw [if_pos (headIs_iff.mpr hfound)] at hrest
      obtain ⟨_, v, hmodify, hrest⟩ := ok_of_bind hrest
      obtain ⟨_, w, hconsume, hreturn⟩ := ok_of_bind hrest
      cases hmodify
      cases hreturn
      exact .inl ⟨hfound, rfl, (Further.trace t _).trans (consume_further hconsume)⟩
    · rw [if_neg (mt headIs_iff.mp hfound)] at hrest
      cases hrest
      exact .inr ⟨hfound, rfl, rfl⟩

/-- A kind is asked for.  The tokens are discarded that are neither of this kind, nor in `follow`,
    nor the end of the input, and the first that is left is `found`.  If it is of the kind it is
    consumed, and otherwise it stays the head; the end of the input stays the head in any case.
    What is reported is that the old head was not of the kind, if it was not, and the faults of
    the tokens that were scanned on the way. -/
theorem demand_recovers (k : Kind) (follow : KindSet) (s : Stream) :
    (s.Clear → ∃ b t, demand k follow s = .ok b t) ∧
    (∀ a t, demand k follow s = .error a t →
      t.rules = s.rules ∧ ∃ n, a = .longDigitRun n ∧ Scan.overlong n ∈ s.rest) ∧
    ∀ b t, demand k follow s = .ok b t → ∃ found behind pulled,
      s.reach (follow ∪ .singleton k) = found :: behind ∧
      (found.kind ∈ follow ∨ found.kind = k ∨ found.kind = .endOfFile) ∧
      (s.head.kind = k → found = s.head) ∧
      (b = true ↔ found.kind = k) ∧
      t.unread = (if b = true ∧ k ≠ .endOfFile then behind else found :: behind) ∧
      (b = false ∨ k = .endOfFile → t.head = found) ∧
      t.rules = s.rules ∧ t.unread <:+ s.unread ∧ s.rest = pulled ++ t.rest ∧
      t.diagnostics = s.diagnostics ++
        (if s.head.kind = k then [] else [⟨.error, .expecting k, s.head.location⟩]) ++
        pulled.filterMap Scan.diagnostic? := by
  refine ⟨fun hclear => returns_of_clear hclear fun a t h => (demand_error h).2,
    fun a t => demand_error, ?_⟩
  intro b t h
  obtain ⟨v, hreached, hhere, hbehind⟩ := demand_reached h
  have hkinds : v.head.kind ∈ follow ∨ v.head.kind = k ∨ v.head.kind = .endOfFile := by
    rcases hreached.stop with hin | hend
    · rcases KindSet.mem_union.mp hin with hfollow | hk
      · exact .inl hfollow
      · exact .inr (.inl (KindSet.mem_singleton.mp hk))
    · exact .inr (.inr hend)
  obtain ⟨pulled, hrest, hdiagnostics⟩ := hreached.pulled
  rcases hbehind with ⟨hk, rfl, hfurther⟩ | ⟨hk, rfl, rfl⟩
  · obtain ⟨pulled', hrest', hdiagnostics'⟩ := hfurther.pulled
    refine ⟨v.head, v.unread.tail, pulled ++ pulled', hreached.reach, hkinds,
      fun h => hhere h ▸ rfl, iff_of_true rfl hk, ?_, ?_, hfurther.rules.trans hreached.rules,
      hfurther.suffix.trans hreached.suffix, ?_, ?_⟩
    · rw [hfurther.unread_taken, hk]
      by_cases hend : k = .endOfFile
      · rw [if_pos hend, if_neg fun hne => hne.2 hend, ← head_unread]
      · rw [if_neg hend, if_pos ⟨rfl, hend⟩]
    · rintro (hfalse | hend)
      · cases hfalse
      · exact hfurther.head_taken (hk.trans hend)
    · rw [hrest, hrest', List.append_assoc]
    · rw [hdiagnostics', hdiagnostics, List.filterMap_append, ← List.append_assoc]
  · exact ⟨t.head, t.unread.tail, pulled, hreached.reach, hkinds, fun h => absurd (hhere h ▸ h) hk,
      iff_of_false Bool.false_ne_true hk, rfl, fun _ => rfl, hreached.rules, hreached.suffix, hrest,
      hdiagnostics⟩

end PlZero.Stream
