/-
  PlZero/Proofs/Stream/Ahead.lean
  ===============================
  **What a token stream still holds.**  `Stream.ahead` is the list of the tokens before
  the end of the input, the head token among them.  An operation on a stream takes
  tokens off the front of this list and adds events to the journal (`Onward`).  Where the
  events are at places of the stream itself, no new place turns up (`Moved`).
-/
import PlZero.Stream.Basic
import Mathlib.Data.List.Infix

namespace PlZero

/-- The tokens of scans up to the first token that ends the input. -/
def Scan.upcoming : List Scan → List Token
  | .token t _ :: rest => if t.kind = .endOfFile then [] else t :: Scan.upcoming rest
  | _ => []

theorem Scan.kind_of_mem_upcoming {scans : List Scan} {t : Token} (h : t ∈ Scan.upcoming scans) :
    t.kind ≠ .endOfFile := by
  induction scans with
  | nil => cases h
  | cons scan rest ih =>
    cases scan with
    | overlong n => cases h
    | token u fault =>
      rw [Scan.upcoming] at h
      split at h
      · cases h
      · rename_i hne
        rcases List.mem_cons.mp h with rfl | h
        · exact hne
        · exact ih h

/-- The end of the input stands nowhere but at the end of the scans. -/
def Scan.EndsLast : List Scan → Prop
  | [] => True
  | .token t _ :: rest => (t.kind = .endOfFile → rest = []) ∧ Scan.EndsLast rest
  | .overlong _ :: rest => Scan.EndsLast rest

/-- The diagnostics of a journal, latest first. -/
def Journal.reports (j : Journal) : List Diagnostic := j.filterMap Journal.diagnostic?

theorem Journal.diagnostics_eq (j : Journal) : j.diagnostics = j.reports.reverse := by
  simp only [Journal.diagnostics, Journal.reports, List.filterMap_reverse]

namespace Stream

/-- The tokens before the end of the input, from the head token on. -/
def ahead (s : Stream) : List Token := Scan.upcoming (.token s.head none :: s.rest)

def EndsLast (s : Stream) : Prop := Scan.EndsLast (.token s.head none :: s.rest)

/-- No digit run that is too long to read lies ahead. -/
def Clear (s : Stream) : Prop := ∀ n, Scan.overlong n ∉ s.rest

/-- No token behind the head has a fault of its own. -/
def Faultless (s : Stream) : Prop := ∀ t fault, Scan.token t fault ∈ s.rest → fault = none

/-- The diagnostics reported so far, latest first. -/
def reports (s : Stream) : List Diagnostic := Journal.reports s.journal

/-- The stream behind its head token.  Behind the end of the input there is nothing. -/
def next (s : Stream) : Stream :=
  if s.headIs .endOfFile then s
  else match s.rest with
    | .token t fault :: rest =>
      { s with head := t, rest := rest, journal := reported t fault s.journal }
    | _ => { s with head := .endOfFile s.head.location, rest := [] }

/-- The stream behind its head token, with the trace step of a token that is matched. -/
def consumed (s : Stream) : Stream := (s.trace (.matched s.head)).next

/-- The stream behind its head token, with the trace step of a token that is skipped. -/
def skipped (s : Stream) : Stream := (s.trace (.skipped s.head)).next

def opened (s : Stream) (rule : String) : Stream :=
  { s.trace (.opened rule) with rules := rule :: s.rules }

def closed (s : Stream) (rule : String) : Stream :=
  trace { s with rules := s.rules.tail } (.closed rule)

/-- The stream with another remark in its record. -/
def noted (s : Stream) (n : Note) : Stream := { s with journal := .note n :: s.journal }

/-! ### The tokens ahead -/

theorem ahead_of_end {s : Stream} (h : s.head.kind = .endOfFile) : s.ahead = [] := by
  simp only [ahead, Scan.upcoming, if_pos h]

theorem ahead_of_ne {s : Stream} (h : s.head.kind ≠ .endOfFile) :
    s.ahead = s.head :: s.next.ahead := by
  have hne : s.headIs .endOfFile = false := by simpa [headIs] using h
  unfold ahead next
  rw [Scan.upcoming, if_neg h]
  rcases s with ⟨head, rest, rules, journal⟩
  rcases rest with _ | ⟨_ | _, rest⟩ <;> simp_all [Scan.upcoming, Token.endOfFile]

theorem ahead_next (s : Stream) : s.next.ahead = s.ahead.tail := by
  by_cases h : s.head.kind = .endOfFile
  · have hnext : s.next = s := by simp [next, headIs, h]
    rw [hnext, ahead_of_end h, List.tail_nil]
  · rw [ahead_of_ne h, List.tail_cons]

/-- The first token ahead is the head token. -/
theorem head_of_ahead {s : Stream} {t : Token} {ts : List Token} (h : s.ahead = t :: ts) :
    s.head = t ∧ t.kind ≠ .endOfFile ∧ s.next.ahead = ts := by
  have hne : s.head.kind ≠ .endOfFile := by
    intro hend
    rw [ahead_of_end hend] at h
    exact List.cons_ne_nil _ _ h.symm
  rw [ahead_of_ne hne] at h
  injection h with hhead htail
  exact ⟨hhead, hhead ▸ hne, htail⟩

theorem ahead_length_le (s : Stream) : s.ahead.length ≤ s.rest.length + 1 := by
  have key : ∀ scans : List Scan, (Scan.upcoming scans).length ≤ scans.length := by
    intro scans
    induction scans with
    | nil => exact Nat.le_refl 0
    | cons scan rest ih =>
      cases scan with
      | overlong n => exact Nat.zero_le _
      | token t fault =>
        rw [Scan.upcoming]
        split
        · exact Nat.zero_le _
        · exact Nat.succ_le_succ ih
  exact key _

@[simp] theorem ahead_trace (s : Stream) (a : Action) : (s.trace a).ahead = s.ahead := rfl

@[simp] theorem ahead_report (s : Stream) (p : Problem) (l : Location) :
    (s.report p l).ahead = s.ahead := rfl

@[simp] theorem ahead_closed (s : Stream) (rule : String) :
    (s.closed rule).ahead = s.ahead := rfl

@[simp] theorem ahead_noted (s : Stream) (n : Note) : (s.noted n).ahead = s.ahead := rfl

@[simp] theorem ahead_consumed (s : Stream) : s.consumed.ahead = s.ahead.tail :=
  ahead_next _

@[simp] theorem rules_next (s : Stream) : s.next.rules = s.rules := by
  unfold next
  split
  · rfl
  · split <;> rfl

@[simp] theorem rules_consumed (s : Stream) : s.consumed.rules = s.rules := rules_next _

theorem rest_next (s : Stream) : s.next.rest <:+ s.rest := by
  unfold next
  split
  · exact List.suffix_refl _
  · split
    · rename_i heq
      exact heq ▸ List.suffix_cons _ _
    · exact List.nil_suffix

theorem EndsLast.next {s : Stream} (h : s.EndsLast) : s.next.EndsLast := by
  unfold Stream.next
  split
  · exact h
  · split
    · rename_i t fault rest heq
      have hrest : Scan.EndsLast s.rest := h.2
      rw [heq] at hrest
      exact hrest
    · exact ⟨fun _ => rfl, trivial⟩

/-! ### Diagnostics -/

@[simp] theorem reports_trace (s : Stream) (a : Action) : (s.trace a).reports = s.reports := rfl

@[simp] theorem reports_report (s : Stream) (p : Problem) (l : Location) :
    (s.report p l).reports = ⟨.error, p, l⟩ :: s.reports := rfl

@[simp] theorem reports_opened (s : Stream) (rule : String) :
    (s.opened rule).reports = s.reports := rfl

@[simp] theorem reports_closed (s : Stream) (rule : String) :
    (s.closed rule).reports = s.reports := rfl

@[simp] theorem reports_noted (s : Stream) (n : Note) : (s.noted n).reports = s.reports := rfl

/-- Where no token has a fault, moving on reports nothing. -/
theorem reports_next {s : Stream} (h : s.Faultless) : s.next.reports = s.reports := by
  unfold next
  split
  · rfl
  · split
    · rename_i t fault rest heq
      have hfault : fault = none := h t fault (heq ▸ List.mem_cons_self)
      subst hfault
      rfl
    · rfl

theorem reports_consumed {s : Stream} (h : s.Faultless) : s.consumed.reports = s.reports :=
  reports_next (s := s.trace (.matched s.head)) h

theorem Clear.of_suffix {s t : Stream} (h : s.Clear) (hrest : t.rest <:+ s.rest) : t.Clear :=
  fun n hn => h n (hrest.subset hn)

theorem Faultless.of_suffix {s t : Stream} (h : s.Faultless) (hrest : t.rest <:+ s.rest) :
    t.Faultless :=
  fun u fault hu => h u fault (hrest.subset hu)

/-! ### Places -/

/-- Every token from the head on, and every diagnostic so far, is at a place that
    satisfies `L`; no diagnostic is fatal. -/
structure Within (L : Location → Prop) (s : Stream) : Prop where
  head : L s.head.location
  rest : ∀ t fault, Scan.token t fault ∈ s.rest → L t.location
  reports : ∀ d ∈ s.reports, d.severity = .error ∧ L d.location

theorem Within.report {L : Location → Prop} {s : Stream} {l : Location} (h : s.Within L)
    (p : Problem) (hl : L l) : (s.report p l).Within L := by
  refine ⟨h.head, h.rest, ?_⟩
  intro d hd
  rcases List.mem_cons.mp hd with rfl | hd
  · exact ⟨rfl, hl⟩
  · exact h.reports d hd

theorem Within.next {L : Location → Prop} {s : Stream} (h : s.Within L) : s.next.Within L := by
  unfold Stream.next
  split
  · exact h
  · split
    · rename_i t fault rest heq
      have ht : L t.location := h.rest t fault (heq ▸ List.mem_cons_self)
      refine ⟨ht, fun u g hu => h.rest u g (heq ▸ List.mem_cons_of_mem _ hu), ?_⟩
      intro d hd
      cases fault with
      | none => exact h.reports d hd
      | some p =>
        rcases List.mem_cons.mp hd with rfl | hd
        · exact ⟨rfl, ht⟩
        · exact h.reports d hd
    · exact ⟨h.head, by simp, h.reports⟩

/-! ### Moving on -/

/-- One stream comes from another by taking tokens off the front and adding events. -/
structure Onward (s t : Stream) : Prop where
  rules : t.rules = s.rules
  rest : t.rest <:+ s.rest
  ahead : t.ahead <:+ s.ahead
  journal : s.journal <:+ t.journal
  endsLast : s.EndsLast → t.EndsLast

namespace Onward

theorem refl (s : Stream) : Onward s s :=
  ⟨rfl, List.suffix_refl _, List.suffix_refl _, List.suffix_refl _, id⟩

theorem trans {s t u : Stream} (h : Onward s t) (h' : Onward t u) : Onward s u :=
  ⟨h'.rules.trans h.rules, h'.rest.trans h.rest, h'.ahead.trans h.ahead,
    h.journal.trans h'.journal, fun hs => h'.endsLast (h.endsLast hs)⟩

theorem report (s : Stream) (p : Problem) (l : Location) : Onward s (s.report p l) :=
  ⟨rfl, List.suffix_refl _, List.suffix_refl _, List.suffix_cons _ _, id⟩

theorem clear {s t : Stream} (h : Onward s t) (hs : s.Clear) : t.Clear := hs.of_suffix h.rest

/-- A diagnostic that was reported stays. -/
theorem reports {s t : Stream} (h : Onward s t) : s.reports <:+ t.reports :=
  h.journal.filterMap _

theorem reports_le {s t : Stream} (h : Onward s t) : s.reports.length ≤ t.reports.length :=
  h.reports.length_le

/-- Nothing follows a report that leaves the number of reports as it was. -/
theorem not_quiet {s t : Stream} {p : Problem} {l : Location} (h : Onward (s.report p l) t) :
    ¬ t.reports.length ≤ s.reports.length := by
  have hle := h.reports_le
  rw [reports_report, List.length_cons] at hle
  omega

end Onward

/-- One stream comes from another by taking tokens off the front and adding events, and
    no place turns up that was not there before. -/
structure Moved (s t : Stream) : Prop extends Onward s t where
  within : ∀ L, s.Within L → t.Within L

namespace Moved

theorem refl (s : Stream) : Moved s s := ⟨.refl s, fun _ h => h⟩

theorem trans {s t u : Stream} (h : Moved s t) (h' : Moved t u) : Moved s u :=
  ⟨h.toOnward.trans h'.toOnward, fun L hL => h'.within L (h.within L hL)⟩

theorem trace (s : Stream) (a : Action) : Moved s (s.trace a) :=
  ⟨⟨rfl, List.suffix_refl _, List.suffix_refl _, List.suffix_cons _ _, id⟩,
    fun _ h => ⟨h.head, h.rest, h.reports⟩⟩

theorem noted (s : Stream) (n : Note) : Moved s (s.noted n) :=
  ⟨⟨rfl, List.suffix_refl _, List.suffix_refl _, List.suffix_cons _ _, id⟩,
    fun _ h => ⟨h.head, h.rest, h.reports⟩⟩

theorem report_head (s : Stream) (p : Problem) : Moved s (s.report p s.head.location) :=
  ⟨.report s p _, fun _ h => h.report p h.head⟩

theorem next (s : Stream) : Moved s s.next := by
  refine ⟨⟨rules_next s, rest_next s, ?_, ?_, fun h => h.next⟩, fun _ h => h.next⟩
  · rw [ahead_next]
    exact List.tail_suffix _
  · unfold Stream.next
    split
    · exact List.suffix_refl _
    · split
      · rename_i t fault rest heq
        cases fault with
        | none => exact List.suffix_refl _
        | some p => exact List.suffix_cons _ _
      · exact List.suffix_refl _

theorem consumed (s : Stream) : Moved s s.consumed := (trace s _).trans (next _)

end Moved

end Stream

end PlZero
