/-
  PlZero/Proofs/Progress/Ending.lean
  ==================================
  **Reading comes to an end.**  Statements and blocks are built to a depth, beyond which a run
  is ended.  Since every further level stands behind a token, the depth is not reached as long
  as it exceeds the number of tokens: the same reader is then built on placeholders instead of
  the end of the run (`blockEnding`), and that one always returns.  So a block is read to its
  end from every sound state, whatever the tokens are (`blockWithin_returns`), and a sequence of
  no more tokens than the program may nest deep is read to a program (`parse_returns`).
-/
import PlZero.Proofs.Contract.Outcome
import PlZero.Proofs.Progress.Reentry

namespace PlZero.Grammar

open Reader

/-! ### Readers that never end a run -/

/-- A statement that nests less deep than the given number, with placeholders for those that
    nest deeper. -/
def statementEnding : Nat → KindSet → Reader Statement
  | 0, recover => attempt .statement recover .error fun l => return .error l
  | n + 1, recover => statementOver (fun r => statementEnding n r) recover

/-- A block in which procedures and statements nest less deep than the given number, with
    placeholders for those that nest deeper. -/
def blockEnding : Nat → Nat → KindSet → Reader Block
  | 0, scope, recover =>
    attempt .block recover (fun l => .mk l scope [] (.error l)) fun l =>
      return .mk l scope [] (.error l)
  | n + 1, scope, recover =>
    blockOver (statementEnding n) (fun s r => blockEnding n s r) scope recover

variable {n k maxDepth : Nat} {E : Abort → Stream → Prop} {L : Location → Prop} {recover : KindSet}
  {s : ReaderState}

theorem statementEnding_runs (k : Nat) : ∀ (recover : KindSet) (s : ReaderState),
    Runs n E L (statementEnding k recover) (fun a t => a.Proper L ∧ t.Waits recover) s := by
  induction k with
  | zero =>
    intro recover s
    exact .attempt (fun l hl => hl) fun l t hl _ _ => .pure hl
  | succ k ih => exact fun _ _ => statementOver_runs ih

theorem blockEnding_runs (k : Nat) : ∀ (scope : Nat) (recover : KindSet) (s : ReaderState),
    Runs n E L (blockEnding k scope recover) (fun b t => b.Proper L ∧ t.Waits recover) s := by
  induction k with
  | zero =>
    intro scope recover s
    have hplaceholder : ∀ l, L l → (Block.mk l scope [] (.error l)).Proper L :=
      fun l hl => ⟨hl, trivial, hl, .inr trivial⟩
    exact .attempt hplaceholder fun l t hl _ _ => .pure (hplaceholder l hl)
  | succ k ih => exact fun _ _ _ => blockOver_runs ih (statementEnding_runs k)

/-! ### Depth and tokens -/

theorem statementWithin_agree (k : Nat) : ∀ i j, k ≤ i → k ≤ j →
    ∀ r, AgreeBelow k (statementWithin i r) (statementWithin j r) :=
  statements_agree (fun _ _ => rfl) (fun _ _ => rfl) statementWithin_steady k

/-- A depth beyond the number of tokens does not matter. -/
theorem blockWithin_agree (k : Nat) : ∀ i j, k ≤ i → k ≤ j →
    ∀ scope r, AgreeBelow k (blockWithin i scope r) (blockWithin j scope r) :=
  blocks_agree (fun _ _ _ => rfl) (fun _ _ _ => rfl) statementWithin_steady blockWithin_steady
    statementWithin_agree k

/-- Where the depth exceeds the number of tokens no run is ended. -/
theorem blockWithin_ending (scope : Nat) (r : KindSet) :
    AgreeBelow k (blockWithin k scope r) (blockEnding k scope r) := by
  have hstatements : ∀ k i j, k ≤ i → k ≤ j →
      ∀ r, AgreeBelow k (statementWithin i r) (statementEnding j r) :=
    statements_agree (fun _ _ => rfl) (fun _ _ => rfl) statementWithin_steady
  exact blocks_agree (fun _ _ _ => rfl) (fun _ _ _ => rfl) statementWithin_steady
    blockWithin_steady hstatements k k k (Nat.le_refl _) (Nat.le_refl _) scope r

/-- A block is read to its end from every sound state. -/
theorem blockWithin_returns (hs : s.Sound L) (hdepth : s.stream.ahead.length < k) (scope : Nat)
    (r : KindSet) : ∃ b t, blockWithin k scope r s = .ok b t := by
  rw [blockWithin_ending scope r s hdepth]
  have hrun := blockEnding_runs (n := 0) (E := fun _ _ => False) k scope r s hs (Nat.zero_le _)
  rcases hrun.cases with ⟨b, t, hm, -⟩ | ⟨e, t, -, himpossible⟩
  · exact ⟨b, t, hm⟩
  · exact himpossible.elim

/-! ### Programs -/

/-- A program with a block of one's own choice. -/
def programOver (block : Nat → KindSet → Reader Block) (recover : KindSet) : Reader Program := do
  let block ← inScope SymbolTable.mainIndex fun scope =>
    attempt .program recover (fun l => .mk l scope [] (.error l)) fun _ => block scope recover
  return ⟨block.location, block⟩

theorem program_eq (recover : KindSet) :
    program maxDepth recover = programOver (blockWithin maxDepth) recover := rfl

theorem programOver_runs {block : Nat → KindSet → Reader Block}
    (hblock : ∀ scope r (t : ReaderState),
      Runs n E L (block scope r) (fun a u => a.Proper L ∧ u.Waits r) t)
    (hmain : n ≤ SymbolTable.mainIndex) :
    Runs n E L (programOver block recover) (fun p _ => p.Proper L) s := by
  refine .bind (.inScope (P := fun b _ => b.Proper L) hmain fun scope t _ => ?_)
    fun block _ _ hblock => .pure ⟨hblock.location, hblock⟩
  refine Runs.post (.attempt (P := fun b => b.Proper L) ?_ ?_) fun _ _ _ h => h.1
  · exact fun l hl => ⟨hl, trivial, hl, .inr trivial⟩
  · exact fun _ _ _ _ _ => (hblock scope recover _).post fun _ _ _ h => h.1

theorem programOver_agree {block block' : Nat → KindSet → Reader Block}
    (h : ∀ scope r, AgreeBelow k (block scope r) (block' scope r)) :
    AgreeBelow k (programOver block recover) (programOver block' recover) := by
  apply AgreeBelow.first
  apply AgreeBelow.inScope
  intro scope
  apply AgreeBelow.attempt
  exact fun _ => h _ _

/-- Fewer tokens than a program may nest deep are read to a program. -/
theorem program_returns (hs : s.Sound L) (hdepth : s.stream.ahead.length < maxDepth)
    (recover : KindSet) : ∃ p t, program maxDepth recover s = .ok p t := by
  rw [program_eq, programOver_agree (k := maxDepth) blockWithin_ending s hdepth]
  have hruns : Runs 0 (fun _ _ => False) L (programOver (blockEnding maxDepth) recover)
      (fun p _ => p.Proper L) s :=
    programOver_runs (blockEnding_runs maxDepth) (Nat.zero_le _)
  rcases (hruns hs (Nat.zero_le _)).cases with ⟨p, t, hm, -⟩ | ⟨e, t, -, himpossible⟩
  · exact ⟨p, t, hm⟩
  · exact himpossible.elim

end PlZero.Grammar

namespace PlZero

open Grammar Reader

variable {maxDepth : Nat}

theorem wholeProgram_returns {L : Location → Prop} {s : ReaderState} (hs : s.Sound L)
    (hdepth : s.stream.ahead.length < maxDepth) : ∃ p t, wholeProgram maxDepth s = .ok p t := by
  have hnoted : (s.withStream (s.stream.noted .parsing)).Sound L := hs.moved (.noted _ _)
  obtain ⟨p, t, hm⟩ := program_returns hnoted hdepth {.endOfFile}
  refine ⟨p, t.withStream (t.stream.noted (.parsed t.stream.journal.reportCount)), ?_⟩
  have hrun : wholeProgram maxDepth s = (program maxDepth {.endOfFile} >>= fun p => do
      note (.parsed (← reads fun s => s.stream.journal.reportCount))
      return p) (s.withStream (s.stream.noted .parsing)) := rfl
  rw [hrun]
  simp only [Bind.bind, EStateM.bind, hm]
  rfl

/-- Tokens are read to a program, or they nest too deeply, which takes as many of them as a
    program may nest deep. -/
theorem parse_returns {scans : List Scan} (hne : scans ≠ [])
    (hclear : ∀ n, Scan.overlong n ∉ scans) :
    ((∃ p, parse maxDepth scans [] = .ok p) ∨ ∃ j, parse maxDepth scans [] = .error (.tooDeep, j)) ∧
      (scans.length < maxDepth → ∃ p, parse maxDepth scans [] = .ok p) := by
  cases scans with
  | nil => exact absurd rfl hne
  | cons x rest =>
    cases x with
    | overlong n => exact absurd List.mem_cons_self (hclear n)
    | token t fault =>
      obtain ⟨stream, hstart⟩ : ∃ stream, Stream.start (.token t fault :: rest) [] = .ok stream :=
        ⟨_, rfl⟩
      have hahead : stream.ahead.length ≤ rest.length + 1 := by
        have hle := Stream.ahead_length_le stream
        cases hstart
        exact hle
      have hsound : ReaderState.Sound (fun _ => True) ⟨stream, .initial, 0⟩ :=
        start_sound hstart hclear (fun _ _ _ => trivial) (by simp [Journal.reports])
      constructor
      · have hrun :=
          wholeProgram_runs endsTooDeep_admits maxDepth (Nat.zero_le _) hsound (Nat.zero_le _)
        rcases hrun.cases with ⟨p, s, hm, -⟩ | ⟨e, s, hm, rfl, -⟩
        · left
          simp only [parse, hstart, hm]
          exact ⟨_, rfl⟩
        · right
          simp only [parse, hstart, hm]
          exact ⟨_, rfl⟩
      · intro hdepth
        have hfew : stream.ahead.length < maxDepth := Nat.lt_of_le_of_lt hahead hdepth
        obtain ⟨p, s, hm⟩ := wholeProgram_returns hsound hfew
        simp only [parse, hstart, hm]
        exact ⟨_, rfl⟩

end PlZero
