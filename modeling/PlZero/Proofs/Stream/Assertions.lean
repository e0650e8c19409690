/-
  PlZero/Proofs/Stream/Assertions.lean
  ====================================
  **Broken assertions end a request and nothing else.**  Five requests rely on what their caller
  has looked at: the name and the number at the head, a token of a kind without tokens to skip
  to, a rule begun without them, and a rule that is closed.  `Stream.broken?` says when one of
  them was relied on in vain, and these are the only requests that fail with a fatal diagnostic
  (`ask_broken`, `ask_error`).

  The stream is left as it was, but for the rule that was to be closed, which is off the stack
  before it is compared.  The collector has listed what it kept, and the session can go on: all
  that is needed of it is that the collector has taken in what happened before, which is so after
  every request and every call (`Reachable.settled`).
-/
import PlZero.Proofs.Diagnostic.Rows
import PlZero.Proofs.Stream.Brackets
import PlZero.Proofs.Stream.Closure

namespace PlZero

/-! ### Requests that rely on their caller -/

namespace Stream

/-- The rules that a request leaves where it fails. -/
def Request.unstacked : Request → List String → List String
  | .close _ _, rules => rules.tail
  | _, rules => rules

/-- The assertion that a request breaks. -/
def broken? (s : Stream) : Request → Option Assertion
  | .name => if s.head.kind = .identifier then none else some (.identifierExpected s.head)
  | .number => if s.head.kind = .number then none else some (.numberExpected s.head)
  | .take k none => if s.head.kind = k then none else some (.kindExpected k s.head)
  | .begin rule starts none =>
    if s.head.kind ∈ starts then none else some (.startExpected rule s.head)
  | .close rule _ =>
    if s.rules.head? = some rule then none else some (.ruleMismatch rule s.rules.head?)
  | _ => none

variable {s u : Stream} {request : Request} {a : Assertion} {e : Abort}

/-- A request that breaks an assertion does nothing but that. -/
theorem ask_broken (h : s.broken? request = some a) :
    ask request s = fatal (.broken a) s.head.location
      { s with rules := request.unstacked s.rules } := by
  cases request with
  | name =>
    obtain ⟨hk, ha⟩ := Option.ite_none_left_eq_some.mp h
    cases ha
    exact bind_of_error (m := name) (name_of_other hk)
  | number =>
    obtain ⟨hk, ha⟩ := Option.ite_none_left_eq_some.mp h
    cases ha
    exact bind_of_error (m := number) (number_of_other hk)
  | take k follow =>
    cases follow with
    | none =>
      obtain ⟨hk, ha⟩ := Option.ite_none_left_eq_some.mp h
      cases ha
      exact bind_of_error (m := expect k) (expect_of_other hk)
    | some follow => cases h
  | «begin» rule starts recover =>
    cases recover with
    | none =>
      obtain ⟨hk, ha⟩ := Option.ite_none_left_eq_some.mp h
      cases ha
      exact bind_of_error (m := beginCertain rule starts) (beginCertain_of_other hk)
    | some recover => cases h
  | close rule recover =>
    obtain ⟨hrule, ha⟩ := Option.ite_none_left_eq_some.mp h
    cases ha
    exact bind_of_error (m := endRule rule recover) (endRule_mismatch recover hrule)
  | _ => cases h

/-- What a request ends with is what its operation ends with. -/
theorem error_of_answer {α : Type} {m : StreamM α} {f : α → Answer}
    (h : (do return f (← m) : StreamM Answer) s = .error e u) : m s = .error e u := by
  rcases error_of_bind h with hm | ⟨x, t, -, hreturn⟩
  · exact hm
  · cases hreturn

/-- A request that breaks no assertion ends at most at digits too long to read. -/
theorem ask_error (hkept : s.broken? request = none) (h : ask request s = .error e u) :
    ∃ n, e = .longDigitRun n := by
  cases request with
  | name =>
    have hk : s.head.kind = .identifier := by simpa [broken?] using hkept
    cases (name_of_identifier hk).symm.trans (error_of_answer (m := name) h)
  | number =>
    have hk : s.head.kind = .number := by simpa [broken?] using hkept
    cases (number_of_number hk).symm.trans (error_of_answer (m := number) h)
  | take k follow =>
    cases follow with
    | none =>
      have hk : s.head.kind = k := by simpa [broken?] using hkept
      have hexpect := error_of_answer (m := expect k) (f := fun _ => .truth true) h
      obtain ⟨-, n, hn, -⟩ := consume_error ((expect_here hk).symm.trans hexpect)
      exact ⟨n, hn⟩
    | some follow =>
      obtain ⟨-, n, hn, -⟩ := demand_error (error_of_answer (m := demand k follow) h)
      exact ⟨n, hn⟩
  | skipTo find =>
    obtain ⟨-, n, hn, -⟩ :=
      skipTo_error (error_of_answer (m := Stream.skipTo find) (f := fun _ => .done) h)
    exact ⟨n, hn⟩
  | «begin» rule starts recover =>
    cases recover with
    | none =>
      have hk : s.head.kind ∈ starts := by simpa [broken?] using hkept
      have hbegin := error_of_answer (m := beginCertain rule starts) (f := fun _ => .truth true) h
      cases (beginCertain_of_start hk).symm.trans hbegin
    | some recover =>
      obtain ⟨-, n, hn, -⟩ :=
        beginRule_error (error_of_answer (m := beginRule rule starts recover) h)
      exact ⟨n, hn⟩
  | close rule recover =>
    have hrule : s.rules.head? = some rule := by simpa [broken?] using hkept
    obtain ⟨n, hn, -⟩ := endRule_error hrule
      (error_of_answer (m := endRule rule recover) (f := fun _ => .done) h)
    exact ⟨n, hn⟩
  | _ => cases h

end Stream

/-! ### Sessions that are reached -/

namespace Session

open PlZero.Stream (Request)

/-- A session that is reached from the first token of some scans by requests and by calls of its
    collector, whatever came of them. -/
inductive Reachable : Session → Prop
  | start {scans : List Scan} {c : Collector} {s : Session} (h : Session.start scans c = .ok s) :
      Reachable s
  | asked {s : Session} (request : Request) (h : Reachable s) : Reachable (s.after request)
  | called {s : Session} (call : Collector.Call) (h : Reachable s) :
      Reachable { s with collector := (s.collector.perform call).1 }

/-- Whether a request fails with a fatal diagnostic. -/
def Raises (s : Session) (request : Request) : Prop :=
  ∃ message location report,
    (s.perform (Stream.ask request)).1 = .error (.fatal message location report)

/-- What a request comes to that breaks an assertion where a collector keeps diagnostics.  The
    listing of `kept` has the rows `rows`. -/
structure Broken (s : Session) (request : Request) (a : Assertion) (kept : List Diagnostic)
    (rows : List Listing.Row) : Prop where
  /-- The head and what is to be scanned behind it stay. -/
  head : (s.after request).stream.head = s.stream.head
  rest : (s.after request).stream.rest = s.stream.rest
  unread : (s.after request).stream.unread = s.stream.unread
  /-- A rule that was to be closed is off the stack; the others stay. -/
  rules : (s.after request).stream.rules = request.unstacked s.stream.rules
  count : (s.after request).collector.count = s.collector.count + 1
  /-- What was kept is listed, with the fatal diagnostic if there is room for it. -/
  listed : kept = s.collector.retained.toList ++
    if (s.collector.count : Int) < s.collector.cap then
      [⟨.fatal, .broken a, s.stream.head.location⟩]
    else []
  laid : Listing.Laid kept rows
  retained : (s.after request).collector.retained = #[]
  /-- The listing is written, unless there is nothing to list, and the summary behind it. -/
  output : (s.after request).collector.output = s.collector.output ++
    (if kept = [] then ""
      else "\n".intercalate (rows.map (Listing.Row.text s.collector.source)) ++ "\n") ++
    Listing.summary (s.collector.count + 1) ++ "\n"
  /-- The failure names the place of the head and carries the listing. -/
  failure : (s.perform (Stream.ask request)).1 =
    .error (.fatal (Problem.broken a).message (some s.stream.head.location)
      ("\n".intercalate (rows.map (Listing.Row.text s.collector.source))))

variable {s : Session} {request : Request} {a : Assertion} {c : Collector}

/-- The collector has taken in whatever happened before. -/
theorem Reachable.settled (h : s.Reachable) : s.stream.journal = [] := by
  induction h with
  | @start scans c s h =>
    unfold Session.start at h
    split at h
    · cases h
      rfl
    · cases h
  | asked request h ih => rfl
  | called call h ih => exact ih

theorem absorbAll_fatally (c : Collector) (p : Problem) (l : Location) :
    c.absorbAll (Stream.fatally p l []) = ((c.fatal p l).1, some (c.fatal p l).2) := rfl

/-- What a request comes to that ends the run. -/
theorem perform_of_error {e : Abort} {u : Stream}
    (h : Stream.ask request s.stream = .error e u) :
    s.perform (Stream.ask request) =
      (.error (e.failure (s.collector.absorbAll u.journal).2),
        ⟨{ u with journal := [] }, (s.collector.absorbAll u.journal).1⟩) := by
  unfold perform
  rw [h]
  rfl

/-- A request that breaks no assertion does not fail with a fatal diagnostic. -/
theorem broken_of_raises (h : s.Raises request) : ∃ a, s.stream.broken? request = some a := by
  cases hbroken : s.stream.broken? request with
  | some a => exact ⟨a, rfl⟩
  | none =>
    obtain ⟨message, location, report, hfailure⟩ := h
    cases hask : Stream.ask request s.stream with
    | ok x u =>
      unfold perform at hfailure
      rw [hask] at hfailure
      cases hfailure
    | error e u =>
      obtain ⟨n, rfl⟩ := Stream.ask_error hbroken hask
      rw [perform_of_error hask] at hfailure
      cases hfailure

/-- There is room for one more diagnostic as long as fewer than the cap were reported. -/
theorem take_room (c : Collector) (d : Diagnostic) :
    [d].take (c.cap - c.count).toNat = if (c.count : Int) < c.cap then [d] else [] := by
  by_cases hroom : (c.count : Int) < c.cap
  · rw [if_pos hroom, List.take_of_length_le (by simp; omega)]
  · rw [if_neg hroom, show (c.cap - c.count).toNat = 0 by omega, List.take_zero]

/-- The collector takes in the fatal diagnostic, and nothing else. -/
theorem perform_broken (h : s.Reachable) (hbroken : s.stream.broken? request = some a) :
    s.perform (Stream.ask request) =
      (.error (s.collector.fatal (.broken a) s.stream.head.location).2,
        ⟨{ s.stream with rules := request.unstacked s.stream.rules, journal := [] },
          (s.collector.fatal (.broken a) s.stream.head.location).1⟩) := by
  have hjournal : Stream.fatally (.broken a) s.stream.head.location s.stream.journal =
      Stream.fatally (.broken a) s.stream.head.location [] :=
    congrArg (Stream.fatally _ _) h.settled
  rw [perform_of_error (Stream.ask_broken hbroken)]
  dsimp only
  rw [hjournal, absorbAll_fatally]
  rfl

theorem broken_of_reachable (h : s.Reachable) (hbroken : s.stream.broken? request = some a) :
    ∃ kept rows, s.Broken request a kept rows := by
  have hperform := perform_broken h hbroken
  have hafter := congrArg Prod.snd hperform
  change s.after request = _ at hafter
  obtain ⟨kept, hkept, hretained, hcount, -, houtput, hfailure⟩ :=
    s.collector.fatal_written (.broken a) s.stream.head.location
  let rows := Listing.rowsFrom none (Listing.sorted kept)
  have hrender : Listing.render s.collector.source kept =
      "\n".intercalate (rows.map (Listing.Row.text s.collector.source)) := by
    rw [Listing.render, Listing.linesFrom_rows]
  have hwritten : Collector.listingText s.collector.source kept =
      if kept = [] then "" else Listing.render s.collector.source kept ++ "\n" := by
    simp only [Collector.listingText_eq, Listing.render_eq_empty]
  refine ⟨kept, rows, ?_⟩
  constructor
  · rw [hafter]
  · rw [hafter]
  · rw [hafter]
    rfl
  · rw [hafter]
  · rw [hafter]
    exact hcount
  · rw [hkept, take_room]
  · exact Listing.laid_rowsFrom kept
  · rw [hafter]
    exact hretained
  · rw [hafter, ← hrender, ← hwritten]
    exact houtput
  · rw [hperform, ← hrender]
    exact congrArg Except.error hfailure

/-- In every session that is reached, also after requests that failed: the five requests that
    rely on their caller fail with a fatal diagnostic exactly where the head, or the innermost
    rule, is not what they rely on, and no other request does.  The head and what is behind it
    stay, and so do the rules, but for the one that was to be closed.  The fatal diagnostic is
    counted, what was kept is listed with it if there is room, the summary is written, and
    nothing is kept. -/
theorem assertions_exact (h : s.Reachable) :
    (s.Raises .name ↔ s.stream.head.kind ≠ .identifier) ∧
    (s.Raises .number ↔ s.stream.head.kind ≠ .number) ∧
    (∀ k, s.Raises (.take k none) ↔ s.stream.head.kind ≠ k) ∧
    (∀ rule starts, s.Raises (.begin rule starts none) ↔ s.stream.head.kind ∉ starts) ∧
    (∀ rule recover, s.Raises (.close rule recover) ↔ s.stream.rules.head? ≠ some rule) ∧
    ∀ request, s.Raises request → ∃ a kept rows,
      s.stream.broken? request = some a ∧ s.Broken request a kept rows := by
  have hraises : ∀ request, s.Raises request ↔ (s.stream.broken? request).isSome := by
    intro request
    rw [Option.isSome_iff_exists]
    refine ⟨broken_of_raises, fun ⟨a, ha⟩ => ?_⟩
    obtain ⟨kept, rows, hbroken⟩ := broken_of_reachable h ha
    exact ⟨_, _, _, hbroken.failure⟩
  refine ⟨?_, ?_, ?_, ?_, ?_, ?_⟩
  · simp [hraises, Stream.broken?]
  · simp [hraises, Stream.broken?]
  · simp [hraises, Stream.broken?]
  · simp [hraises, Stream.broken?]
  · simp [hraises, Stream.broken?]
  · intro request hrequest
    obtain ⟨a, ha⟩ := broken_of_raises hrequest
    obtain ⟨kept, rows, hbroken⟩ := broken_of_reachable h ha
    exact ⟨a, kept, rows, ha, hbroken⟩

/-- `assertions_exact` of a session in which a rule was begun and then a number was asked for at an
    identifier, which filled the collector.  The rule that is closed next is not the innermost
    one: the innermost one is off the stack, and nothing is left to list. -/
theorem assertions_exact_again :
    let head : Token := ⟨.identifier, .unknown, .absent⟩
    let comma : Scan := .token ⟨.comma, .unknown, .absent⟩ none
    let opened : Session := ⟨⟨head, [comma], [], []⟩, { cap := 1 }⟩
    let s := (opened.after (.begin "Block" {.identifier} none)).after .number
    s.Raises (.close "Statement" {.comma}) ∧
      (s.after (.close "Statement" {.comma})).stream = ⟨head, [comma], [], []⟩ ∧
      (s.after (.close "Statement" {.comma})).collector.count = 2 ∧
      (s.after (.close "Statement" {.comma})).collector.retained = #[] := by
  intro head comma opened s
  have hstart : start [.token head none, comma] { cap := 1 } = .ok opened := rfl
  have hopened : opened.Reachable := .start hstart
  have hrules : s.stream.rules = ["Block"] := by decide +kernel
  have hcount : s.collector.count = 1 := by decide +kernel
  obtain ⟨-, -, -, -, hcloses, hfails⟩ := assertions_exact ((hopened.asked _).asked _)
  have hraises : s.Raises (.close "Statement" {.comma}) :=
    (hcloses _ _).mpr (hrules ▸ by decide)
  obtain ⟨a, kept, rows, -, hbroken⟩ := hfails _ hraises
  exact ⟨hraises, by decide +kernel, hbroken.count.trans (congrArg (· + 1) hcount),
    hbroken.retained⟩

end Session

end PlZero
