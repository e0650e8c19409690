/-
  PlZero/Proofs/Acceptance/Outcome.lean
  =====================================
  **What is read without a diagnostic is a correct program.**  Its tokens are derived by the
  grammar, and since derived programs are read as their trees, with their complaints for
  diagnostics, there are no complaints and no placeholders.  So whatever the grammar does not
  derive leads to a diagnostic, whether reading comes to its end or not.
-/
import PlZero.Proofs.Acceptance.Blocks
import PlZero.Proofs.Completeness.Outcome
import PlZero.Proofs.Contract.Outcome
import PlZero.Proofs.Derivation.Clean

namespace PlZero.Grammar

open PlZero.Derivation (outermost unusedKinds)

variable {maxDepth : Nat}

/-- What has happened when reading ended, in whichever way it did. -/
def recordOf : Except (Abort × Journal) Parsed → Journal
  | .ok p => p.journal
  | .error e => e.2

/-! ### Runs over tokens -/

/-- Reading tokens comes to the end of the input, and if nothing was reported on the way it
    took a derivation; or it ends early and has reported that. -/
theorem wholeProgram_ends (maxDepth : Nat) {tokens : List Token} (h : tokens ≠ []) :
    ∃ s, Stream.start (tokens.map fun t => .token t none) [] = .ok s ∧
      Reader.Ends EndsTooDeep (wholeProgram maxDepth) (fun _ t => t.stream.reports = [] →
        ∃ c : Derivation.Block, Scan.beforeEnd tokens = c.tokens ∧ c.nesting ≤ maxNesting)
        ⟨s, .initial, 0⟩ := by
  obtain ⟨s, hstart, hreports, hs⟩ := start_before h
  have hsound : ReaderState.Sound (fun _ => True) ⟨s, .initial, 0⟩ :=
    start_sound hstart (by simp) (fun _ _ _ => trivial) (by simp [Journal.reports])
  have hruns := wholeProgram_runs endsTooDeep_admits maxDepth (Nat.zero_le _) hsound (Nat.zero_le _)
  have hreads := wholeProgram_reads maxDepth (s := ⟨s, .initial, 0⟩) rfl hs.clear
  refine ⟨s, hstart, (hruns.and hreads).mono (fun _ _ h => h.1) ?_⟩
  rintro p t ⟨⟨-, -, -, hend⟩, htook⟩ hquiet
  have hlength : t.stream.reports.length ≤ s.reports.length := by
    rw [hquiet]
    exact Nat.zero_le _
  obtain ⟨ts, ⟨c, hn, rfl⟩, hahead⟩ := htook.tokens hlength
  refine ⟨c, ?_, hn⟩
  rw [← hs.ahead, hahead, Stream.ahead_of_end hend, List.append_nil]

/-- Tokens that are read without a diagnostic are derived by the grammar. -/
theorem derived_of_quiet {tokens : List Token} {p : Parsed}
    (h : parse maxDepth (tokens.map fun t => .token t none) [] = .ok p)
    (hquiet : p.journal.diagnostics = []) :
    ∃ c : Derivation.Block, Scan.beforeEnd tokens = c.tokens ∧ c.nesting ≤ maxNesting := by
  have hne : tokens ≠ [] := by
    rintro rfl
    exact absurd h (by simp [parse, Stream.start])
  obtain ⟨s, hstart, hends⟩ := wholeProgram_ends maxDepth hne
  unfold parse at h
  simp only [hstart] at h
  rcases hends.cases with ⟨q, t, hm, hderived⟩ | ⟨e, t, hm, -⟩
  · rw [hm] at h
    obtain rfl := Except.ok.inj h
    rw [Journal.diagnostics_eq, List.reverse_eq_nil_iff] at hquiet
    exact hderived hquiet
  · rw [hm] at h
    exact absurd h (by simp)

/-- Reading that ends early has reported something. -/
theorem diagnostics_of_error {tokens : List Token} {e : Abort} {j : Journal}
    (h : parse maxDepth (tokens.map fun t => .token t none) [] = .error (e, j)) :
    j.diagnostics ≠ [] := by
  by_cases hne : tokens = []
  · subst hne
    cases h
    simp [Stream.fatally, Journal.diagnostics, Journal.diagnostic?]
  · obtain ⟨s, hstart, hends⟩ := wholeProgram_ends maxDepth hne
    unfold parse at h
    simp only [hstart] at h
    rcases hends.cases with ⟨q, t, hm, -⟩ | ⟨e', t, hm, -, l, before, hfatal⟩
    · rw [hm] at h
      exact absurd h (by simp)
    · rw [hm] at h
      cases h
      rw [Journal.diagnostics_eq, Ne, List.reverse_eq_nil_iff]
      show t.stream.reports ≠ []
      rw [hfatal]
      exact List.cons_ne_nil _ _

/-! ### Programs without diagnostics -/

/-- Tokens that are read without a diagnostic are a program of the grammar whose names are
    distinct in every block, whose assignments are even and whose parentheses and signs nest
    no deeper than they may; and neither its tree nor its table has a placeholder.  All other
    tokens lead to a diagnostic, among them those with a token that the grammar does not
    mention. -/
theorem parse_quiet (maxDepth : Nat) (tokens : List Token) :
    let before := Scan.beforeEnd tokens
    let result := parse maxDepth (tokens.map fun t => .token t none) []
    (∀ p, result = .ok p → p.journal.diagnostics = [] →
      (∃ c : Derivation.Block, before = c.tokens ∧ c.Correct ∧ c.nesting ≤ maxNesting) ∧
        p.program.Clean ∧ p.symbols.Clean) ∧
      ((¬ ∃ c : Derivation.Block, before = c.tokens) → (recordOf result).diagnostics ≠ []) ∧
      ((∃ t ∈ before, t.kind ∈ unusedKinds) → (recordOf result).diagnostics ≠ []) := by
  intro before result
  have hderived : (recordOf result).diagnostics = [] →
      ∃ c : Derivation.Block, before = c.tokens := by
    intro hquiet
    cases hresult : result with
    | error e =>
      rw [hresult] at hquiet
      exact absurd hquiet (diagnostics_of_error hresult)
    | ok p =>
      rw [hresult] at hquiet
      obtain ⟨c, hc, -⟩ := derived_of_quiet hresult hquiet
      exact ⟨c, hc⟩
  refine ⟨?_, fun hno hquiet => hno (hderived hquiet), ?_⟩
  · intro p hp hquiet
    -- the tokens are derived, so they are read as the tree of their derivation
    obtain ⟨c, hbefore, hn⟩ := derived_of_quiet hp hquiet
    rcases parse_of_derived maxDepth hn hbefore with
      ⟨q, hq, hprogram, hcomplaints, hleave⟩ | ⟨⟨j, hj⟩, -⟩
    · obtain rfl := Except.ok.inj (hp.symm.trans hq)
      have hcorrect : c.Correct := Derivation.Block.complaints_eq_nil.mp (hcomplaints ▸ hquiet)
      refine ⟨⟨c, hbefore, hcorrect, hn⟩, ?_, ?_⟩
      · rw [hprogram]
        exact c.tree_clean outermost hcorrect
      · obtain ⟨V, hV, hentries, -⟩ := c.table_leave .initial SymbolTable.mainIndex
        obtain rfl := Option.some.inj (hleave.symm.trans hV)
        have htable := c.table_clean outermost (SymbolTable.initial_clean.enter _)
        intro e he
        exact htable e (hentries ▸ he)
    · exact absurd (hp.symm.trans hj) (by simp)
  · rintro ⟨t, ht, hk⟩ hquiet
    obtain ⟨c, hc⟩ := hderived hquiet
    exact c.ordinary t (hc ▸ ht) hk

/-- What `parse_quiet` says of `begin skip end` and of `begin && end`. -/
theorem parse_quiet_skip :
    let place : Nat → Location := fun n => ⟨"a.pl0", 1, n⟩
    let tokens : Kind → List Token := fun k => [⟨.kwBegin, place 1, .absent⟩,
      ⟨k, place 2, .absent⟩, ⟨.kwEnd, place 3, .absent⟩, .endOfFile (place 4)]
    (∃ p, parse 1000 ((tokens .kwSkip).map fun t => .token t none) [] = .ok p ∧
        p.journal.diagnostics = [] ∧ p.program.Clean ∧
        ∃ c : Derivation.Block, (tokens .kwSkip).dropLast = c.tokens ∧ c.Correct) ∧
      (recordOf (parse 1000 ((tokens .logAnd).map fun t => .token t none) [])).diagnostics ≠
        [] := by
  intro place tokens
  obtain ⟨hskip, -, -⟩ := parse_quiet 1000 (tokens .kwSkip)
  obtain ⟨-, -, hlogAnd⟩ := parse_quiet 1000 (tokens .logAnd)
  refine ⟨?_, hlogAnd ⟨⟨.logAnd, place 2, .absent⟩, ?_, by decide⟩⟩
  · have hok : (parse 1000 ((tokens .kwSkip).map fun t => .token t none) []).toBool = true := by
      decide +kernel
    have hquiet :
        (recordOf (parse 1000 ((tokens .kwSkip).map fun t => .token t none) [])).diagnostics =
        [] := by
      decide +kernel
    cases hp : parse 1000 ((tokens .kwSkip).map fun t => .token t none) [] with
    | error e =>
      rw [hp] at hok
      exact absurd hok Bool.false_ne_true
    | ok p =>
      rw [hp] at hquiet
      obtain ⟨⟨c, hc, hcorrect, -⟩, hclean, -⟩ := hskip p hp hquiet
      exact ⟨p, rfl, hquiet, hclean, c, hc, hcorrect⟩
  · decide

end PlZero.Grammar
