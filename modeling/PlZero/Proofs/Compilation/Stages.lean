/-
  PlZero/Proofs/Compilation/Stages.lean
  =====================================
  **The stages of a run.**  A source may be scanned to its end before it is read.  What is
  handed over then are the tokens of the scans, without their faults, and a journal that holds
  these faults in the order of the source (`tokensOf_eq`).  Reading scans to the end of a
  program starts a stream and lets the outermost rule run on it (`parse_ok`).
-/
import PlZero.Compilation
import PlZero.Proofs.Diagnostic.Absorbed

namespace PlZero

/-! ### Scanning before reading -/

namespace Scan

def token? : Scan → Option Token
  | .token t _ => some t
  | .overlong _ => none

/-- The diagnostic of a token with a fault. -/
def diagnostic? : Scan → Option Diagnostic
  | .token t fault => fault.map fun p => ⟨.error, p, t.location⟩
  | .overlong _ => none

/-- A scan whose fault was reported before. -/
def cleared : Scan → Scan
  | .token t _ => .token t none
  | .overlong n => .overlong n

theorem diagnostics_cons (x : Scan) (scans : List Scan) :
    (x :: scans).filterMap diagnostic? = x.diagnostic?.toList ++ scans.filterMap diagnostic? := by
  rw [List.filterMap_cons]
  cases x.diagnostic? with
  | none => rfl
  | some d => rfl

end Scan

theorem Journal.diagnostics_reported (t : Token) (fault : Option Problem) (j : Journal) :
    Journal.diagnostics (Stream.reported t fault j) =
      Journal.diagnostics j ++ (Scan.diagnostic? (.token t fault)).toList := by
  cases fault with
  | none => simp [Stream.reported, Scan.diagnostic?]
  | some p => exact diagnostics_report _ _

open Compilation

theorem taken_foldl (scans : List Scan) (acc : List Token × Journal) :
    (scans.foldl taken acc).1 = (scans.filterMap Scan.token?).reverse ++ acc.1 ∧
      Journal.diagnostics (scans.foldl taken acc).2 =
        Journal.diagnostics acc.2 ++ scans.filterMap Scan.diagnostic? := by
  induction scans generalizing acc with
  | nil => simp
  | cons x scans ih =>
    obtain ⟨htokens, hdiagnostics⟩ := ih (taken acc x)
    rw [List.foldl_cons, htokens, hdiagnostics]
    cases x with
    | overlong n => exact ⟨rfl, rfl⟩
    | token t fault =>
      constructor
      · simp [taken, Scan.token?]
      · rw [taken, Journal.diagnostics_reported, Scan.diagnostics_cons, List.append_assoc]

/-- Scanning hands over the tokens, and notes their faults in a journal. -/
theorem tokensOf_eq (scans : List Scan) (j : Journal) :
    (tokensOf scans j).1 = scans.filterMap Scan.token? ∧
      Journal.diagnostics (tokensOf scans j).2 =
        Journal.diagnostics j ++ scans.filterMap Scan.diagnostic? := by
  obtain ⟨htokens, hdiagnostics⟩ := taken_foldl scans ([], j)
  constructor
  · simp [tokensOf, htokens]
  · exact hdiagnostics

/-- Tokens that are handed over are the scans without their faults. -/
theorem tokensOf_cleared {scans : List Scan} (hclear : ∀ n, Scan.overlong n ∉ scans)
    (j : Journal) :
    ((tokensOf scans j).1.map fun t => Scan.token t none) = scans.map Scan.cleared := by
  rw [(tokensOf_eq scans j).1]
  induction scans with
  | nil => rfl
  | cons x scans ih =>
    have hrest := ih fun n hn => hclear n (List.mem_cons_of_mem _ hn)
    cases x with
    | overlong n => exact absurd List.mem_cons_self (hclear n)
    | token t fault =>
      rw [List.map_cons, ← hrest]
      rfl

/-! ### Reading -/

open Grammar

variable {maxDepth : Nat}

/-- A program that was read is what the outermost rule left. -/
theorem parse_ok {scans : List Scan} {j : Journal} {p : Parsed}
    (h : parse maxDepth scans j = .ok p) :
    ∃ stream s, Stream.start scans j = .ok stream ∧
      wholeProgram maxDepth ⟨stream, .initial, 0⟩ = .ok p.program s ∧
      p.symbols = s.symbols ∧ p.journal = s.stream.journal := by
  unfold parse at h
  cases hstart : Stream.start scans j with
  | error e =>
    rw [hstart] at h
    cases h
  | ok stream =>
    simp only [hstart] at h
    cases hm : wholeProgram maxDepth ⟨stream, .initial, 0⟩ with
    | error e s =>
      rw [hm] at h
      cases h
    | ok program s =>
      rw [hm] at h
      obtain rfl := Except.ok.inj h
      exact ⟨stream, s, rfl, hm, rfl, rfl⟩

end PlZero
