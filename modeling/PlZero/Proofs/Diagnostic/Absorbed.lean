/-
  PlZero/Proofs/Diagnostic/Absorbed.lean
  ======================================
  **What a collector makes of a journal.**  A journal without a fatal diagnostic leaves a
  collector with the count of all its diagnostics, with the first of them up to the cap,
  and with its trace lines written if trace lines are wanted (`absorbAll_of_error`).  The
  three parts do not influence each other: the cap decides what is kept and nothing else,
  and so does the wish for a trace with what is written.
-/
import PlZero.Diagnostic.Collector
import PlZero.Proofs.Stream.Ahead

namespace PlZero

/-! ### The trace of a journal -/

namespace Journal

/-- The line that an event adds to the trace. -/
def traceLine? : Event → Option String
  | .trace depth action => some (Listing.spaces depth ++ action.text)
  | _ => none

/-- The trace lines of a run, in the order in which they were written. -/
def traceLines (j : Journal) : List String := j.reverse.filterMap traceLine?

/-- The trace of a run as it is written. -/
def traceText (j : Journal) : String := String.join (j.traceLines.map fun line => line ++ "\n")

theorem diagnostics_report (d : Diagnostic) (j : Journal) :
    Journal.diagnostics (.report d :: j) = Journal.diagnostics j ++ [d] := by
  simp [diagnostics, diagnostic?]

theorem diagnostics_trace (n : Nat) (a : Action) (j : Journal) :
    Journal.diagnostics (.trace n a :: j) = Journal.diagnostics j := by
  simp [diagnostics, diagnostic?]

theorem diagnostics_note (n : Note) (j : Journal) :
    Journal.diagnostics (.note n :: j) = Journal.diagnostics j := by
  simp [diagnostics, diagnostic?]

theorem traceLines_trace (n : Nat) (a : Action) (j : Journal) :
    traceLines (.trace n a :: j) = traceLines j ++ [Listing.spaces n ++ a.text] := by
  simp [traceLines, traceLine?]

theorem traceLines_report (d : Diagnostic) (j : Journal) :
    traceLines (.report d :: j) = traceLines j := by
  simp [traceLines, traceLine?]

theorem traceLines_note (n : Note) (j : Journal) : traceLines (.note n :: j) = traceLines j := by
  simp [traceLines, traceLine?]

end Journal

/-! ### Taking in a journal -/

namespace Collector

/-- A collector that has taken in a journal in which nothing is fatal. -/
def after (c : Collector) (j : Journal) : Collector :=
  { c with
    retained := c.retained ++ (j.diagnostics.take (c.cap - c.count).toNat).toArray
    count := c.count + j.diagnostics.length
    written := if c.tracing then (j.traceLines.map .line).reverse ++ c.written else c.written }

theorem absorbAll_cons (c : Collector) (e : Event) (j : Journal) :
    c.absorbAll (e :: j) =
      (((c.absorbAll j).1.absorb e).1, ((c.absorbAll j).1.absorb e).2.or (c.absorbAll j).2) := rfl

/-- One more diagnostic is kept as long as fewer than the cap were reported before it. -/
theorem after_record (c : Collector) (j : Journal) (d : Diagnostic) :
    (c.after j).record d = c.after (.report d :: j) := by
  have hcount : (c.after j).count = c.count + j.diagnostics.length := rfl
  have hcap : (c.after j).cap = c.cap := rfl
  have hlength : (j.diagnostics ++ [d]).length = j.diagnostics.length + 1 := by simp
  unfold record
  by_cases hroom : ((c.after j).count : Int) < (c.after j).cap
  · rw [if_pos hroom]
    rw [hcount, hcap] at hroom
    have hall : (j.diagnostics ++ [d]).take (c.cap - c.count).toNat = j.diagnostics ++ [d] :=
      List.take_of_length_le (by omega)
    have hbefore : j.diagnostics.take (c.cap - c.count).toNat = j.diagnostics :=
      List.take_of_length_le (by omega)
    simp only [after, Journal.diagnostics_report, Journal.traceLines_report, hall, hbefore]
    simp [Nat.add_assoc]
  · rw [if_neg hroom]
    rw [hcount, hcap] at hroom
    have hfull : (j.diagnostics ++ [d]).take (c.cap - c.count).toNat =
        j.diagnostics.take (c.cap - c.count).toNat :=
      List.take_append_of_le_length (by omega)
    simp only [after, Journal.diagnostics_report, Journal.traceLines_report, hfull]
    simp [Nat.add_assoc]

/-- A trace step adds its line if lines are wanted. -/
theorem after_trace (c : Collector) (j : Journal) (n : Nat) (a : Action) :
    (c.after j).trace n a.text = c.after (.trace n a :: j) := by
  unfold trace writeLine
  simp only [after, Journal.diagnostics_trace, Journal.traceLines_trace]
  by_cases htracing : c.tracing = true
  · simp [htracing]
  · simp [htracing]

/-- A collector takes in any journal without a fatal diagnostic, and goes on. -/
theorem absorbAll_of_error (c : Collector) {j : Journal}
    (h : ∀ d ∈ j.diagnostics, d.severity = .error) : c.absorbAll j = (c.after j, none) := by
  induction j with
  | nil => simp [absorbAll, after, Journal.diagnostics, Journal.traceLines]
  | cons e j ih =>
    cases e with
    | report d =>
      rw [Journal.diagnostics_report] at h
      have hd : d.severity = .error := h d (by simp)
      have hj := ih fun x hx => h x (by simp [hx])
      obtain ⟨severity, problem, location⟩ := d
      dsimp only at hd
      subst hd
      rw [absorbAll_cons, hj]
      exact congrArg (·, none) (after_record c j ⟨.error, problem, location⟩)
    | trace n a =>
      rw [Journal.diagnostics_trace] at h
      rw [absorbAll_cons, ih h]
      exact congrArg (·, none) (after_trace c j n a)
    | note n =>
      rw [Journal.diagnostics_note] at h
      rw [absorbAll_cons, ih h]
      simp only [after, Journal.diagnostics_note, Journal.traceLines_note]
      rfl

/-! ### What is written -/

/-- The listing that is written when the diagnostics that are kept are shown. -/
def listingText (source : Array String) (ds : List Diagnostic) : String :=
  if ds.isEmpty then "" else Listing.render source ds ++ "\n"

/-- A collector writes the trace of what it takes in, if lines are wanted. -/
theorem output_after (c : Collector) (j : Journal) :
    (c.after j).output = c.output ++ if c.tracing then j.traceText else "" := by
  unfold output after Journal.traceText
  cases c.tracing with
  | false => simp
  | true =>
    have hlines : ((j.traceLines.map Written.line).map (textOf c.source)) =
        j.traceLines.map fun line => line ++ "\n" := by
      rw [List.map_map]
      rfl
    simp only [if_true, List.reverse_append, List.reverse_reverse, List.map_append, hlines,
      String.join_append]

/-- The listing and the summary stand behind all that was written before. -/
theorem output_flush_writeSummary (c : Collector) :
    c.flush.writeSummary.output =
      c.output ++ listingText c.source c.retained.toList ++ Listing.summary c.count ++ "\n" := by
  unfold output flush writeSummary listingText
  cases hempty : c.retained.isEmpty with
  | true =>
    have hlist : c.retained.toList.isEmpty = true := by simpa using hempty
    simp [hlist, String.join_append, textOf, String.append_assoc]
  | false =>
    have hlist : c.retained.toList.isEmpty = false := by simpa using hempty
    simp [hlist, String.join_append, textOf, String.append_assoc]

end Collector

end PlZero
