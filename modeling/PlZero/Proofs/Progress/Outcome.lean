/-
  PlZero/Proofs/Progress/Outcome.lean
  ===================================
  **Reading makes progress.**  What was shown of the single readers is put together: every loop
  takes a token in each of its turns, every rule that nests in itself is entered again behind a
  token, so reading ends for every sequence of tokens, and the number of diagnostics is bounded
  by a multiple of the number of tokens.
-/
import PlZero.Proofs.Acceptance.Outcome
import PlZero.Proofs.Progress.Ending
import PlZero.Proofs.Progress.Prices

namespace PlZero

open Grammar Reader

/-! ### Entering rules again -/

/-- Conditions, constants, statements and blocks enter themselves again behind a token: what
    they do in a state depends on what nests in them only where fewer tokens are ahead. -/
structure EntersBehindTokens : Prop where
  conditions : ∀ n recover (inside : KindSet → Reader Expression) (s : ReaderState),
    (∀ r (t : ReaderState), t.stream.ahead.length < s.stream.ahead.length →
      conditionWithin n r t = inside r t) →
    conditionWithin (n + 1) recover s = conditionOver inside recover s
  constants : ∀ n recover (operand : KindSet → Reader Constant) (s : ReaderState),
    (∀ r (t : ReaderState), t.stream.ahead.length < s.stream.ahead.length →
      constantWithin n r t = operand r t) →
    constantWithin (n + 1) recover s = constantOver operand recover s
  statements : ∀ n recover (statement : KindSet → Reader Statement) (s : ReaderState),
    (∀ r (t : ReaderState), t.stream.ahead.length < s.stream.ahead.length →
      statementWithin n r t = statement r t) →
    statementWithin (n + 1) recover s = statementOver statement recover s
  blocks : ∀ n scope recover (statement : KindSet → Reader Statement)
      (block : Nat → KindSet → Reader Block) (s : ReaderState),
    (∀ r (t : ReaderState), t.stream.ahead.length < s.stream.ahead.length →
      statementWithin n r t = statement r t) →
    (∀ inner r (t : ReaderState), t.stream.ahead.length < s.stream.ahead.length →
      blockWithin n inner r t = block inner r t) →
    blockWithin (n + 1) scope recover s = blockOver statement block scope recover s

theorem enters_behind_tokens : EntersBehindTokens where
  conditions := fun n _ _ s h =>
    conditionOver_agree (conditionWithin_steady n) h s (Nat.lt_succ_self _)
  constants := fun _ _ _ s h => constantOver_agree h s (Nat.lt_succ_self _)
  statements := fun n _ _ s h =>
    statementOver_agree (statementWithin_steady n) h s (Nat.lt_succ_self _)
  blocks := fun n _ _ _ _ s hstatement hblock =>
    blockOver_agree (blockWithin_steady n) hblock (statementWithin_steady n) hstatement s
      (Nat.lt_succ_self _)

/-! ### The number of diagnostics -/

/-- How many diagnostics a run adds to its journal, for every token and once more. -/
def diagnosticsPerToken : Nat := 101

/-- The first token may bring a diagnostic along, and so may the end of a run at its start. -/
theorem start_reports (scans : List Scan) (journal : Journal) :
    match Stream.start scans journal with
    | .ok s => s.weight ≤ journal.reports.length + diagnosticsPerToken * scans.length + 1
    | .error e => e.2.reports.length ≤ journal.reports.length + 1 := by
  cases scans with
  | nil => exact Nat.le_refl _
  | cons x rest =>
    cases x with
    | overlong n => exact Nat.le_succ _
    | token t fault =>
      have hahead := Stream.ahead_length_le ⟨t, rest, [], Stream.reported t fault journal⟩
      have hfew : (Journal.reports (Stream.reported t fault journal)).length ≤
          journal.reports.length + 1 := by
        cases fault with
        | none => exact Nat.le_succ _
        | some p => exact Nat.le_refl _
      simp only [Stream.start, Stream.weight, Stream.reports, Stream.credit, diagnosticsPerToken,
        List.length_cons]
      simp only at hahead
      omega

/-- However reading ends, it reported no more than a multiple of the number of tokens. -/
theorem parse_reports (maxDepth : Nat) (scans : List Scan) (journal : Journal) :
    (recordOf (parse maxDepth scans journal)).reports.length ≤
      journal.reports.length + diagnosticsPerToken * (scans.length + 1) := by
  have hstarts := start_reports scans journal
  unfold parse
  cases hstart : Stream.start scans journal with
  | error e =>
    simp only [hstart] at hstarts
    simp only [recordOf, diagnosticsPerToken]
    omega
  | ok s =>
    simp only [hstart] at hstarts
    have hcosts := wholeProgram_priced maxDepth ⟨s, .initial, 0⟩
    have hstate : ReaderState.weight ⟨s, .initial, 0⟩ = s.weight := rfl
    cases hrun : wholeProgram maxDepth ⟨s, .initial, 0⟩ with
    | ok p t =>
      have ht : t.weight ≤ s.weight + 5 := hcosts.ok hrun
      have hreports : (t.stream.journal.reports.length : Int) ≤ t.weight :=
        t.stream.reports_le_weight
      simp only [hrun, recordOf]
      unfold diagnosticsPerToken at *
      omega
    | error e t =>
      have ht : t.weight ≤ s.weight + 6 := hcosts.error hrun
      have hreports : (t.stream.journal.reports.length : Int) ≤ t.weight :=
        t.stream.reports_le_weight
      simp only [hrun, recordOf]
      unfold diagnosticsPerToken at *
      omega

/-! ### Progress -/

/-- Every turn of a loop takes a token, rules are entered again behind a token, every sequence
    of tokens is read to an end, and its length bounds the number of diagnostics. -/
theorem parse_progresses :
    LoopsEnd ∧ EntersBehindTokens ∧
      (∀ (L : Location → Prop) (s : ReaderState) k scope recover, s.Sound L →
        s.stream.ahead.length < k → ∃ b t, blockWithin k scope recover s = .ok b t) ∧
      (∀ (maxDepth : Nat) (scans : List Scan), scans ≠ [] → (∀ n, .overlong n ∉ scans) →
        ((∃ p, parse maxDepth scans [] = .ok p) ∨
            ∃ j, parse maxDepth scans [] = .error (.tooDeep, j)) ∧
          (scans.length < maxDepth → ∃ p, parse maxDepth scans [] = .ok p)) ∧
      ∃ C : Nat, ∀ maxDepth scans journal,
        (recordOf (parse maxDepth scans journal)).diagnostics.length ≤
          journal.diagnostics.length + C * (scans.length + 1) := by
  refine ⟨loops_end, enters_behind_tokens, fun _ _ _ scope recover hs hdepth =>
    blockWithin_returns hs hdepth scope recover, fun _ _ hne hclear => parse_returns hne hclear,
    diagnosticsPerToken, fun maxDepth scans journal => ?_⟩
  rw [Journal.diagnostics_eq, Journal.diagnostics_eq, List.length_reverse, List.length_reverse]
  exact parse_reports maxDepth scans journal

end PlZero
