/-
  PlZero/Proofs/Recovery/Outcome.lean
  ===================================
  **Recovery depends on kinds of tokens only.**  Two sequences of tokens of the same kinds are
  read by the same steps, with the same complaints about syntax, about lengths of assignments
  and about nesting, into the same scopes and into trees of one shape, whatever the tokens are
  called, whatever numbers they carry and wherever they stand.
-/
import Mathlib.Data.List.Forall2
import PlZero.Proofs.Recovery.Readers
import PlZero.Proofs.Token.Scanned

namespace PlZero

open Grammar Reader

variable {maxDepth : Nat}

/-! ### The beginning -/

/-- The faults of a source are those of its lexer. -/
theorem scan_lexical (source : List Char) (file : String) :
    Scan.Lexical (scan source file) := by
  have hfaults : ∀ t fault, Scan.token t fault ∈ scan source file →
      ∀ p, fault = some p → p = .integerTooLarge ∨ ∃ c, p = .illegalCharacter c := by
    apply scan_forall
    · intro l p hp
      cases hp
    · rintro ch rest k payload _ l hmeaning p rfl
      generalize (Lexeme.longest ch rest).1 = lexeme at hmeaning
      cases lexeme with
      | word cs =>
        simp only [Lexeme.meaning] at hmeaning
        cases hmeaning
      | digits ds =>
        simp only [Lexeme.meaning] at hmeaning
        split at hmeaning
        · cases hmeaning
        · split at hmeaning
          · cases hmeaning
            exact .inl rfl
          · cases hmeaning
      | operator k cs => cases hmeaning
      | illegal c =>
        cases hmeaning
        exact .inr ⟨c, rfl⟩
  intro t p ht
  exact hfaults t (some p) ht p rfl

/-- Streams that start at the first tokens of two sequences are twins. -/
theorem start_twin (w : Counterparts) {s s' : Stream}
    (hs : Stream.start w.scans w.before = .ok s) (hs' : Stream.start w.scans' w.before' = .ok s') :
    s.Twin w s' := by
  have hjournal := Journal.Twin.start w
  cases hscans : w.scans with
  | nil =>
    rw [hscans] at hs
    cases hs
  | cons x rest =>
    cases hscans' : w.scans' with
    | nil =>
      rw [hscans'] at hs'
      cases hs'
    | cons x' rest' =>
      rw [hscans] at hs
      rw [hscans'] at hs'
      cases x with
      | overlong n => cases hs
      | token t fault =>
        cases x' with
        | overlong n => cases hs'
        | token t' fault' =>
          cases hs
          cases hs'
          have hmem : .token t fault ∈ w.scans := hscans ▸ List.mem_cons_self
          have hmem' : .token t' fault' ∈ w.scans' := hscans' ▸ List.mem_cons_self
          exact ⟨0, ⟨fault, hscans⟩, ⟨fault', hscans'⟩, rfl, hjournal.reported hmem hmem'⟩

/-! ### Two programs -/

/-- Two sequences of tokens of the same kinds, up to the end of the input, with no faults but
    those of a lexer, whatever happened before they are read.  If both are read, the events of
    the two are twins, one after the other and with the same numbers of tokens passed before
    them: rules are begun, ended and abandoned, tokens are matched, found again and skipped, and
    mistakes are reported, alike.  The two programs have the same scopes, which lie in each other
    alike, and trees of one shape. -/
theorem recovery_by_kinds {scans scans' : List Scan} {j j' : Journal} {p p' : Parsed}
    (hkinds : scans'.map Scan.kind? = scans.map Scan.kind?)
    (hending : (scans.map Scan.kind?).getLast? = some (some .endOfFile))
    (hlexical : Scan.Lexical scans) (hlexical' : Scan.Lexical scans')
    (hp : parse maxDepth scans j = .ok p) (hp' : parse maxDepth scans' j' = .ok p') :
    ∃ events events', p.journal = events ++ j ∧ p'.journal = events' ++ j' ∧
      List.Forall₂ (Event.TwinPlaced scans scans') (Journal.placed events)
        (Journal.placed events') ∧
      p'.symbols.frame = p.symbols.frame ∧ p'.program.shape = p.program.shape := by
  let w : Counterparts := ⟨scans, scans', j, j', hkinds, hending, hlexical, hlexical'⟩
  obtain ⟨stream, s, hstart, hm, hsymbols, hjournal⟩ := parse_ok hp
  obtain ⟨stream', s', hstart', hm', hsymbols', hjournal'⟩ := parse_ok hp'
  have htwin : ReaderState.Twin w ⟨stream, .initial, 0⟩ ⟨stream', .initial, 0⟩ :=
    ⟨start_twin w hstart hstart', rfl, rfl⟩
  obtain ⟨hshape, hafter⟩ := wholeProgram_lockstep _ _ _ _ _ _ htwin hm hm'
  obtain ⟨n, hstream⟩ := hafter.stream
  obtain ⟨events, events', hevents, hevents', -, -, hplaced⟩ := hstream.journal
  refine ⟨events, events', hjournal.trans hevents, hjournal'.trans hevents', hplaced, ?_, hshape⟩
  rw [hsymbols, hsymbols']
  exact hafter.frame

/-- The hypotheses of `recovery_by_kinds` hold of two programs with other names and numbers on
    other lines.  The second declares a name twice, which is one diagnostic more. -/
theorem recovery_by_kinds_renamed :
    let source := "const a = 1; b = 2; begin b := ( end"
    let source' := "const x = 30;\nx = 4; begin yes := ( end"
    ∃ p p', parse 1000 (scan source.toList "a.pl0") [] = .ok p ∧
      parse 1000 (scan source'.toList "b.pl0") [] = .ok p' ∧
      p'.journal.diagnostics.length = p.journal.diagnostics.length + 1 ∧
      (Journal.placed p'.journal).length = (Journal.placed p.journal).length ∧
      p'.symbols.frame = p.symbols.frame ∧ p'.program.shape = p.program.shape := by
  intro source source'
  have hkinds : (scan source'.toList "b.pl0").map Scan.kind? =
      (scan source.toList "a.pl0").map Scan.kind? := by decide +kernel
  have hending : ((scan source.toList "a.pl0").map Scan.kind?).getLast? =
      some (some .endOfFile) := by decide +kernel
  have hcount : ((parse 1000 (scan source.toList "a.pl0") []).map
      fun p => p.journal.diagnostics.length).toOption = some 2 := by decide +kernel
  have hcount' : ((parse 1000 (scan source'.toList "b.pl0") []).map
      fun p => p.journal.diagnostics.length).toOption = some 3 := by decide +kernel
  cases hp : parse 1000 (scan source.toList "a.pl0") [] with
  | error e =>
    rw [hp] at hcount
    cases hcount
  | ok p =>
    cases hp' : parse 1000 (scan source'.toList "b.pl0") [] with
    | error e =>
      rw [hp'] at hcount'
      cases hcount'
    | ok p' =>
      rw [hp] at hcount
      rw [hp'] at hcount'
      have htwo : p.journal.diagnostics.length = 2 := Option.some.inj hcount
      have hthree : p'.journal.diagnostics.length = 3 := Option.some.inj hcount'
      obtain ⟨events, events', hevents, hevents', hplaced, hframe, hshape⟩ :=
        recovery_by_kinds hkinds hending (scan_lexical _ _) (scan_lexical _ _) hp hp'
      rw [List.append_nil] at hevents hevents'
      rw [← hevents, ← hevents'] at hplaced
      refine ⟨p, p', rfl, rfl, ?_, hplaced.length_eq.symm, hframe, hshape⟩
      rw [htwo, hthree]

end PlZero
