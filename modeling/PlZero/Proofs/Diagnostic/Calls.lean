/-
  PlZero/Proofs/Diagnostic/Calls.lean
  ===================================
  **Diagnostics are neither lost nor listed twice.**  A collector is asked for anything in any
  order: to report, to check, to show what it keeps, to write it out.  What it has written in
  listings and what it still keeps are together the first reports, as many as the cap allows
  (`calls_accounted`), however often it was emptied on the way.

  The cap is compared with the count of all reports, which goes on when a listing is written.
  So one report adds to what is accounted for exactly as long as fewer than the cap came
  before it (`record_retained`), and writing a listing moves what is kept and changes nothing
  else (`flush_accounted`).
-/
import PlZero.Proofs.Diagnostic.Absorbed

namespace PlZero

/-! ### Listings that are not empty -/

namespace Listing

theorem entry_ne_empty (d : Diagnostic) : entry d ≠ "" := by
  intro h
  have hlength := congrArg String.length h
  unfold entry mark at hlength
  split at hlength <;> simp [numberWidth, String.length_append] at hlength

theorem header_ne_empty (source : Array String) (line : Int) : header source line ≠ "" := by
  intro h
  have hlength := congrArg String.length h
  simp [header, String.length_append] at hlength

theorem linesFrom_ne_empty (source : Array String) (shown : Option Int) (ds : List Diagnostic) :
    ∀ line ∈ linesFrom source shown ds, line ≠ "" := by
  induction ds generalizing shown with
  | nil => simp [linesFrom]
  | cons d ds ih =>
    intro line hline
    unfold linesFrom at hline
    split at hline
    · split at hline
      · rcases List.mem_cons.mp hline with rfl | hline
        · exact entry_ne_empty d
        · exact ih _ line hline
      · rcases List.mem_cons.mp hline with rfl | hline
        · exact header_ne_empty source _
        · rcases List.mem_cons.mp hline with rfl | hline
          · exact entry_ne_empty d
          · exact ih _ line hline
    · rcases List.mem_cons.mp hline with rfl | hline
      · exact entry_ne_empty d
      · exact ih _ line hline

theorem linesFrom_eq_nil {source : Array String} {shown : Option Int} {ds : List Diagnostic} :
    linesFrom source shown ds = [] ↔ ds = [] := by
  cases ds with
  | nil => simp [linesFrom]
  | cons d ds =>
    unfold linesFrom
    split
    · split <;> simp
    · simp

/-- Only the listing of nothing is empty. -/
theorem render_eq_empty {source : Array String} {ds : List Diagnostic} :
    render source ds = "" ↔ ds = [] := by
  have hsorted : sorted ds = [] ↔ ds = [] := by
    rw [← List.length_eq_zero_iff, sorted, List.length_mergeSort, List.length_eq_zero_iff]
  constructor
  · intro h
    cases hlines : linesFrom source none (sorted ds) with
    | nil => exact hsorted.mp (linesFrom_eq_nil.mp hlines)
    | cons line lines =>
      have hline : line ≠ "" := linesFrom_ne_empty source none (sorted ds) line (by simp [hlines])
      rw [render, hlines] at h
      cases lines with
      | nil => simp [hline] at h
      | cons line' lines => simp [String.intercalate_cons_cons, hline] at h
  · rintro rfl
    simp [render, sorted, linesFrom]

end Listing

namespace Collector

/-! ### Calls -/

/-- What a collector can be asked. -/
inductive Call
  | error (problem : Problem) (location : Location)
  | fatal (problem : Problem) (location : Location)
  | check (condition : Bool) (assertion : Assertion) (location : Location)
  | render
  | flush
  | summary
  | writeSummary
  | debug (depth : Int) (text : String)
  deriving DecidableEq, Repr

/-- What a collector answers. -/
inductive Answer
  | done
  | text (shown : String)
  | failed (failure : Failure)

/-- One call. -/
def perform (c : Collector) : Call → Collector × Answer
  | .error p l => (c.error p l, .done)
  | .fatal p l => ((c.fatal p l).1, .failed (c.fatal p l).2)
  | .check condition a l =>
    match c.check condition a l with
    | (c, none) => (c, .done)
    | (c, some failure) => (c, .failed failure)
  | .render => (c, .text c.render)
  | .flush => (c.flush, .done)
  | .summary => (c, .text c.summary)
  | .writeSummary => (c.writeSummary, .done)
  | .debug depth text => (c.trace depth text, .done)

/-- The calls one after the other, whether or not some of them fail. -/
def run (c : Collector) (calls : List Call) : Collector :=
  calls.foldl (fun c call => (c.perform call).1) c

/-- What a call reports. -/
def Call.report? : Call → Option Diagnostic
  | .error p l => some ⟨.error, p, l⟩
  | .fatal p l => some ⟨.fatal, p, l⟩
  | .check false a l => some ⟨.fatal, .broken a, l⟩
  | _ => none

/-- What some calls report, in their order. -/
def reportsOf (calls : List Call) : List Diagnostic := calls.filterMap Call.report?

/-- Whether a call writes a listing. -/
def Call.empties : Call → Bool
  | .fatal _ _ => true
  | .check condition _ _ => !condition
  | .flush => true
  | _ => false

/-- What a piece of output lists. -/
def listed : Written → List Diagnostic
  | .listing ds => ds
  | _ => []

/-- What was listed so far, the earliest listing first. -/
def listedSoFar (c : Collector) : List Diagnostic := c.written.reverse.flatMap listed

/-- What was listed so far and what is kept. -/
def accounted (c : Collector) : List Diagnostic := c.listedSoFar ++ c.retained.toList

variable {c : Collector} {call : Call} {calls : List Call} {d : Diagnostic}

/-! ### Single calls -/

/-- A report is kept as long as fewer than the cap came before it. -/
theorem record_retained (c : Collector) (d : Diagnostic) :
    (c.record d).retained.toList = c.retained.toList ++ [d].take (c.cap - c.count).toNat := by
  unfold record
  by_cases hroom : (c.count : Int) < c.cap
  · have hpositive : (c.cap - c.count).toNat = (c.cap - c.count).toNat - 1 + 1 := by omega
    rw [if_pos hroom, hpositive]
    simp
  · have hzero : (c.cap - c.count).toNat = 0 := by omega
    rw [if_neg hroom, hzero]
    simp

theorem record_accounted (c : Collector) (d : Diagnostic) :
    (c.record d).accounted = c.accounted ++ [d].take (c.cap - c.count).toNat := by
  unfold accounted
  rw [record_retained, ← List.append_assoc]
  rfl

/-- What is kept is listed, and nothing else changes. -/
theorem flush_accounted (c : Collector) : c.flush.accounted = c.accounted := by
  unfold accounted listedSoFar flush
  cases hempty : c.retained.isEmpty with
  | true =>
    have hnone : c.retained = #[] := by simpa using hempty
    simp [hnone]
  | false => simp [listed]

theorem writeSummary_accounted (c : Collector) : c.writeSummary.accounted = c.accounted := by
  simp [accounted, listedSoFar, writeSummary, listed]

theorem trace_accounted (c : Collector) (depth : Int) (text : String) :
    (c.trace depth text).accounted = c.accounted := by
  unfold trace
  split
  · simp [accounted, listedSoFar, writeLine, listed]
  · rfl

theorem fatal_accounted (c : Collector) (p : Problem) (l : Location) :
    (c.fatal p l).1.accounted =
      c.accounted ++ [⟨.fatal, p, l⟩].take (c.cap - c.count).toNat := by
  show ((c.record _).flush.writeSummary).accounted = _
  rw [writeSummary_accounted, flush_accounted, record_accounted]

theorem perform_settings (c : Collector) (call : Call) :
    (c.perform call).1.cap = c.cap ∧ (c.perform call).1.source = c.source := by
  cases call with
  | check condition a l => cases condition <;> exact ⟨rfl, rfl⟩
  | debug depth text =>
    show (c.trace depth text).cap = c.cap ∧ (c.trace depth text).source = c.source
    unfold trace
    split <;> exact ⟨rfl, rfl⟩
  | _ => exact ⟨rfl, rfl⟩

theorem perform_count (c : Collector) (call : Call) :
    (c.perform call).1.count = c.count + call.report?.toList.length := by
  cases call with
  | check condition a l => cases condition <;> rfl
  | debug depth text =>
    show (c.trace depth text).count = c.count
    unfold trace
    split <;> rfl
  | _ => rfl

/-- A call accounts for what it reports, if there is room. -/
theorem perform_accounted (c : Collector) (call : Call) :
    (c.perform call).1.accounted =
      c.accounted ++ call.report?.toList.take (c.cap - c.count).toNat := by
  cases call with
  | error p l => exact record_accounted c _
  | fatal p l => exact fatal_accounted c p l
  | check condition a l =>
    cases condition with
    | false => exact fatal_accounted c (.broken a) l
    | true => simp [perform, check, Call.report?]
  | render => simp [perform, Call.report?]
  | flush => simp [perform, Call.report?, flush_accounted]
  | summary => simp [perform, Call.report?]
  | writeSummary => simp [perform, Call.report?, writeSummary_accounted]
  | debug depth text => simp [perform, Call.report?, trace_accounted]

/-- A call that writes no listing keeps what was kept, and adds what it reports. -/
theorem perform_retained (c : Collector) (h : call.empties = false) :
    (c.perform call).1.retained.toList =
      c.retained.toList ++ call.report?.toList.take (c.cap - c.count).toNat := by
  cases call with
  | error p l => exact record_retained c _
  | fatal p l => cases h
  | check condition a l =>
    cases condition with
    | false => cases h
    | true => simp [perform, check, Call.report?]
  | flush => cases h
  | debug depth text =>
    show (c.trace depth text).retained.toList = _
    unfold trace
    split <;> simp [writeLine, Call.report?]
  | _ => simp [perform, Call.report?, writeSummary]

/-- A call that writes a listing keeps nothing. -/
theorem perform_empties (c : Collector) (h : call.empties = true) :
    (c.perform call).1.retained = #[] := by
  cases call with
  | check condition a l =>
    cases condition with
    | false => rfl
    | true => cases h
  | fatal p l => rfl
  | flush => rfl
  | _ => cases h

/-! ### Any calls -/

theorem run_append (c : Collector) (before after : List Call) :
    c.run (before ++ after) = (c.run before).run after := List.foldl_append

theorem reportsOf_cons (call : Call) (calls : List Call) :
    reportsOf (call :: calls) = call.report?.toList ++ reportsOf calls := by
  unfold reportsOf
  cases h : call.report? with
  | none => simp [h]
  | some d => simp [h]

theorem run_settings (c : Collector) (calls : List Call) :
    (c.run calls).cap = c.cap ∧ (c.run calls).source = c.source := by
  induction calls generalizing c with
  | nil => exact ⟨rfl, rfl⟩
  | cons call calls ih =>
    obtain ⟨hcap, hsource⟩ := perform_settings c call
    obtain ⟨hcaps, hsources⟩ := ih (c.perform call).1
    exact ⟨hcaps.trans hcap, hsources.trans hsource⟩

theorem run_count (c : Collector) (calls : List Call) :
    (c.run calls).count = c.count + (reportsOf calls).length := by
  induction calls generalizing c with
  | nil => rfl
  | cons call calls ih =>
    show ((c.perform call).1.run calls).count = _
    rw [ih, perform_count, reportsOf_cons, List.length_append, Nat.add_assoc]

/-- There is room for the reports of some calls behind those of the first one. -/
theorem take_reportsOf_cons (c : Collector) (call : Call) (calls : List Call) :
    (reportsOf (call :: calls)).take (c.cap - c.count).toNat =
      call.report?.toList.take (c.cap - c.count).toNat ++
        (reportsOf calls).take ((c.perform call).1.cap - (c.perform call).1.count).toNat := by
  have hroom : ((c.perform call).1.cap - (c.perform call).1.count).toNat =
      (c.cap - c.count).toNat - call.report?.toList.length := by
    rw [(perform_settings c call).1, perform_count]
    omega
  rw [reportsOf_cons, List.take_append, hroom]

theorem run_accounted (c : Collector) (calls : List Call) :
    (c.run calls).accounted =
      c.accounted ++ (reportsOf calls).take (c.cap - c.count).toNat := by
  induction calls generalizing c with
  | nil => simp [run, reportsOf]
  | cons call calls ih =>
    show ((c.perform call).1.run calls).accounted = _
    rw [ih, perform_accounted, take_reportsOf_cons, List.append_assoc]

theorem run_retained (c : Collector) (h : ∀ call ∈ calls, call.empties = false) :
    (c.run calls).retained.toList =
      c.retained.toList ++ (reportsOf calls).take (c.cap - c.count).toNat := by
  induction calls generalizing c with
  | nil => simp [run, reportsOf]
  | cons call calls ih =>
    show ((c.perform call).1.run calls).retained.toList = _
    rw [ih _ fun x hx => h x (by simp [hx]), perform_retained c (h call (by simp)),
      take_reportsOf_cons, List.append_assoc]

/-- What is kept after a listing was written came after it. -/
theorem run_retained_after (c : Collector) (before : List Call) {after : List Call}
    (hcall : call.empties = true) (hafter : ∀ x ∈ after, x.empties = false) :
    (c.run (before ++ call :: after)).retained.toList =
      (reportsOf after).take
        (c.cap - (c.count + (reportsOf (before ++ [call])).length : Nat)).toNat := by
  have hsplit : before ++ call :: after = (before ++ [call]) ++ after := by simp
  have hempty : (c.run (before ++ [call])).retained = #[] := by
    rw [run_append]
    exact perform_empties _ hcall
  rw [hsplit, run_append, run_retained _ hafter, hempty, (run_settings c _).1, run_count]
  simp

/-! ### Failing -/

/-- A fatal diagnostic is reported like any other.  What is kept then is listed, unless it is
    nothing, and behind it stands the summary; the failure carries the listing. -/
theorem fatal_written (c : Collector) (p : Problem) (l : Location) :
    ∃ kept, kept = c.retained.toList ++ [⟨.fatal, p, l⟩].take (c.cap - c.count).toNat ∧
      (c.fatal p l).1.retained = #[] ∧ (c.fatal p l).1.count = c.count + 1 ∧
      (c.fatal p l).1.written =
        .summary (c.count + 1) :: ((if kept = [] then [] else [.listing kept]) ++ c.written) ∧
      (c.fatal p l).1.output = c.output ++ listingText c.source kept ++
        Listing.summary (c.count + 1) ++ "\n" ∧
      (c.fatal p l).2 = .fatal p.message (some l) (Listing.render c.source kept) := by
  have hkept := record_retained c ⟨.fatal, p, l⟩
  have houtput := output_flush_writeSummary (c.record ⟨.fatal, p, l⟩)
  rw [hkept] at houtput
  refine ⟨_, rfl, rfl, rfl, ?_, houtput, ?_⟩
  · have hempty : (c.record ⟨.fatal, p, l⟩).retained.isEmpty = true ↔
        (c.record ⟨.fatal, p, l⟩).retained.toList = [] := by simp
    rw [← hkept]
    by_cases hnone : (c.record ⟨.fatal, p, l⟩).retained.toList = []
    · rw [if_pos hnone]
      simp only [fatal, flush, writeSummary, if_pos (hempty.mpr hnone)]
      rfl
    · rw [if_neg hnone]
      simp only [fatal, flush, writeSummary, if_neg (mt hempty.mp hnone)]
      rfl
  · rw [← hkept]
    rfl

theorem listingText_eq (source : Array String) (ds : List Diagnostic) :
    listingText source ds =
      if Listing.render source ds = "" then "" else Listing.render source ds ++ "\n" := by
  unfold listingText
  cases ds with
  | nil => simp [Listing.render_eq_empty]
  | cons d ds => simp [Listing.render_eq_empty]

/-- Any calls of a new collector.  Its count is that of the reports.  What it listed and what
    it keeps are the first reports, as many as the cap allows, each once; it keeps those that
    came after the last listing, in their order.  To show what is kept, or the summary, changes
    nothing.  A fatal diagnostic, or a check that fails, writes the listing of what is kept and
    the summary behind it and keeps nothing, and the failure carries the listing. -/
theorem calls_accounted (source : Array String) (cap : Int) (tracing : Bool)
    (calls : List Call) :
    let c := ({ source, cap, tracing } : Collector).run calls
    let reports := reportsOf calls
    let room := (max 0 cap).toNat
    c.count = reports.length ∧
    c.listedSoFar ++ c.retained.toList = reports.take (min reports.length room) ∧
    (∀ before call after, calls = before ++ call :: after → call.empties = true →
      (∀ x ∈ after, x.empties = false) →
      c.retained.toList =
        (reportsOf after).take (room - (reportsOf (before ++ [call])).length)) ∧
    ((∀ x ∈ calls, x.empties = false) → c.retained.toList = reports.take room) ∧
    c.perform .render = (c, .text (Listing.render source c.retained.toList)) ∧
    c.perform .summary = (c, .text (Listing.summary reports.length)) ∧
    (∀ call p l, call = .fatal p l ∨ (∃ a, p = .broken a ∧ call = .check false a l) →
      ∃ kept report after, c.perform call = (after, .failed (.fatal p.message (some l) report)) ∧
        kept = c.retained.toList ++ [⟨.fatal, p, l⟩].take (room - reports.length) ∧
        report = Listing.render source kept ∧ after.retained = #[] ∧
        after.written = .summary (reports.length + 1) ::
          ((if kept = [] then [] else [.listing kept]) ++ c.written) ∧
        after.output = c.output ++ (if report = "" then "" else report ++ "\n") ++
          Listing.summary (reports.length + 1) ++ "\n") := by
  intro c reports room
  let new : Collector := { source, cap, tracing }
  have hcount : c.count = reports.length := (run_count new calls).trans (Nat.zero_add _)
  have hcap : c.cap = cap := (run_settings new calls).1
  have hsource : c.source = source := (run_settings new calls).2
  have hroom : (cap - (0 : Nat)).toNat = room := by omega
  have hleft : (c.cap - c.count).toNat = room - reports.length := by omega
  refine ⟨hcount, ?_, ?_, ?_, ?_, ?_, ?_⟩
  · have haccounted : c.listedSoFar ++ c.retained.toList =
        [] ++ reports.take (cap - (0 : Nat)).toNat := run_accounted new calls
    rw [haccounted, hroom, List.nil_append, List.take_eq_take_iff]
    omega
  · rintro before call after rfl hcall hafter
    have hretained := run_retained_after new before hcall hafter
    rw [hretained]
    congr 1
    show (cap - (0 + (reportsOf (before ++ [call])).length : Nat)).toNat = _
    omega
  · intro hnone
    have hretained : c.retained.toList = [] ++ reports.take (cap - (0 : Nat)).toNat :=
      run_retained new hnone
    rw [hretained, hroom, List.nil_append]
  · rw [← hsource]
    rfl
  · rw [← hcount]
    rfl
  · intro call p l hcall
    have hfatal : c.perform call = ((c.fatal p l).1, .failed (c.fatal p l).2) := by
      rcases hcall with rfl | ⟨a, rfl, rfl⟩
      · rfl
      · rfl
    obtain ⟨kept, hkept, hretained, -, hwritten, houtput, hfailure⟩ := fatal_written c p l
    rw [hleft] at hkept
    rw [hcount] at hwritten
    rw [hsource, hcount, listingText_eq] at houtput
    rw [hsource] at hfailure
    exact ⟨kept, _, _, hfailure ▸ hfatal, hkept, rfl, hretained, hwritten, houtput⟩

/-- `calls_accounted` of two diagnostics to keep, one listed at once and one with a fatal
    diagnostic that is itself beyond the cap: nothing is kept of what comes after. -/
theorem calls_accounted_beyond :
    let first : Diagnostic := ⟨.error, .integerTooLarge, .unknown⟩
    let second : Diagnostic := ⟨.error, .programTooDeep, .unknown⟩
    let before : List Call := [.error .integerTooLarge .unknown, .flush,
      .error .programTooDeep .unknown, .error .unequalAssignment .unknown]
    let after : List Call := [.error .expressionTooDeep .unknown, .summary]
    let c := ({ source := #[], cap := 2, tracing := false } : Collector).run
      (before ++ .check false .noTokens .unknown :: after)
    c.count = 5 ∧ c.listedSoFar ++ c.retained.toList = [first, second] ∧
      c.retained.toList = [] := by
  intro first second before after c
  obtain ⟨hcount, haccounted, hretained, -⟩ := calls_accounted #[] 2 false
    (before ++ .check false .noTokens .unknown :: after)
  have hkept := hretained before (.check false .noTokens .unknown) after rfl rfl (by decide)
  exact ⟨hcount, haccounted, hkept⟩

end Collector

end PlZero
