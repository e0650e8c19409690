/-
  PlZero/Proofs/Diagnostic/Rows.lean
  ==================================
  **What stands where in a listing.**  A listing is made of rows: one for each diagnostic, and
  one that opens the diagnostics of a source line (`Row`).  `Laid` says how the rows of some
  diagnostics are laid out: in the order of their keys, those of one key as they arrived, and
  each line opened once, right before its first diagnostic.

  The listing decides by the line shown last whether to open a line.  Since it is sorted, the
  diagnostics of a line stand next to each other, behind those without a place; so the line
  shown last is the only one shown that can come again (`headers_rowsFrom`).
-/
import PlZero.Proofs.Diagnostic.Calls
import PlZero.Proofs.Diagnostic.Sorted

namespace PlZero

/-! ### Lines of diagnostics -/

namespace Diagnostic

/-- The source line of a diagnostic, if its place is known. -/
def line? (d : Diagnostic) : Option Int :=
  if d.location.isKnown then some d.location.line else none

theorem key_of_line {d : Diagnostic} {l : Int} (h : d.line? = some l) : d.key.1 = l ∧ 0 < l := by
  unfold line? at h
  unfold key
  split at h
  · rename_i hknown
    obtain rfl := Option.some.inj h
    rw [if_pos hknown]
    exact ⟨rfl, of_decide_eq_true hknown⟩
  · cases h

theorem key_of_no_line {d : Diagnostic} (h : d.line? = none) : d.key = (0, 0) := by
  unfold line? at h
  unfold key
  split at h
  · cases h
  · rename_i hunknown
    rw [if_neg hunknown]

/-- Behind a diagnostic of a line stand only those of this line and of later ones. -/
theorem line_of_precedes {d e : Diagnostic} (h : d.precedes e = true) {l : Int}
    (hd : d.line? = some l) : ∃ m, e.line? = some m ∧ l ≤ m := by
  obtain ⟨hkey, hpositive⟩ := key_of_line hd
  rw [precedes_iff, hkey] at h
  cases he : e.line? with
  | none =>
    rw [key_of_no_line he] at h
    omega
  | some m =>
    rw [(key_of_line he).1] at h
    exact ⟨m, rfl, by omega⟩

end Diagnostic

namespace Listing

/-! ### Rows -/

/-- A row of a listing. -/
inductive Row
  | header (line : Int)
  | entry (d : Diagnostic)
  deriving DecidableEq, Repr

namespace Row

def text (source : Array String) : Row → String
  | header line => Listing.header source line
  | entry d => Listing.entry d

def header? : Row → Option Int
  | header line => some line
  | entry _ => none

def entry? : Row → Option Diagnostic
  | header _ => none
  | entry d => some d

end Row

/-- The lines that rows open, in their order. -/
def headers (rows : List Row) : List Int := rows.filterMap Row.header?

/-- The diagnostics that rows show, in their order. -/
def entries (rows : List Row) : List Diagnostic := rows.filterMap Row.entry?

/-- How the rows of some diagnostics are laid out. -/
structure Laid (ds : List Diagnostic) (rows : List Row) : Prop where
  /-- Every diagnostic is shown once. -/
  once : (entries rows).Perm ds
  /-- Diagnostics are ordered by line and column. -/
  ordered : (entries rows).Pairwise fun d e =>
    d.key.1 < e.key.1 ∨ d.key.1 = e.key.1 ∧ d.key.2 ≤ e.key.2
  /-- Diagnostics without a place stand before all others. -/
  placelessFirst : (entries rows).Pairwise fun d e => e.line? = none → d.line? = none
  /-- Diagnostics of one key are shown as they arrived. -/
  asArrived : ∀ k, (entries rows).filter (fun d => decide (d.key = k)) =
    ds.filter fun d => decide (d.key = k)
  /-- A line is opened if a diagnostic has it. -/
  opened : ∀ line, .header line ∈ rows ↔ ∃ d ∈ ds, d.line? = some line
  /-- No line is opened twice. -/
  openedOnce : (headers rows).Nodup
  /-- A line is opened right before its first diagnostic. -/
  before : ∀ above line below, rows = above ++ .header line :: below →
    (∃ d rest, below = .entry d :: rest ∧ d.line? = some line) ∧
      ∀ e, .entry e ∈ above → e.line? ≠ some line

/-- The rows of sorted diagnostics.  `shown` is the source line shown last. -/
def rowsFrom (shown : Option Int) : List Diagnostic → List Row
  | [] => []
  | d :: rest =>
    match d.line? with
    | none => .entry d :: rowsFrom shown rest
    | some line =>
      if shown = some line then .entry d :: rowsFrom shown rest
      else .header line :: .entry d :: rowsFrom (some line) rest

theorem linesFrom_rows (source : Array String) (shown : Option Int) (ds : List Diagnostic) :
    linesFrom source shown ds = (rowsFrom shown ds).map (Row.text source) := by
  induction ds generalizing shown with
  | nil => rfl
  | cons d ds ih =>
    unfold linesFrom rowsFrom Diagnostic.line?
    by_cases hknown : d.location.isKnown = true
    · by_cases hshown : shown = some d.location.line
      · simp only [if_pos hknown, if_pos hshown, List.map_cons, ih]
        rfl
      · simp only [if_pos hknown, if_neg hshown, List.map_cons, ih]
        rfl
    · simp only [if_neg hknown, List.map_cons, ih]
      rfl

theorem entries_rowsFrom (shown : Option Int) (ds : List Diagnostic) :
    entries (rowsFrom shown ds) = ds := by
  induction ds generalizing shown with
  | nil => rfl
  | cons d ds ih =>
    unfold rowsFrom
    cases d.line? with
    | none => exact congrArg (d :: ·) (ih shown)
    | some line =>
      dsimp only
      split
      · exact congrArg (d :: ·) (ih shown)
      · exact congrArg (d :: ·) (ih (some line))

/-! ### Sorted rows -/

/-- Diagnostics in the order of a listing, none of which has a line before the line shown
    last. -/
structure Ascending (shown : Option Int) (ds : List Diagnostic) : Prop where
  ordered : ds.Pairwise fun d e => d.precedes e = true
  later : ∀ l ∈ shown, ∀ d ∈ ds, ∀ m ∈ d.line?, l ≤ m

/-- The first diagnostic is shown under the line shown last, or it opens its own line. -/
theorem rowsFrom_cons {shown : Option Int} {d : Diagnostic} {ds : List Diagnostic}
    (h : Ascending shown (d :: ds)) :
    (rowsFrom shown (d :: ds) = .entry d :: rowsFrom shown ds ∧ Ascending shown ds ∧
        (d.line? = none ∨ d.line? = shown)) ∨
      ∃ own, d.line? = some own ∧ shown ≠ some own ∧ Ascending (some own) ds ∧
        rowsFrom shown (d :: ds) = .header own :: .entry d :: rowsFrom (some own) ds := by
  have htail : Ascending shown ds :=
    ⟨h.ordered.tail, fun l hl e he => h.later l hl e (List.mem_cons_of_mem _ he)⟩
  rw [rowsFrom]
  cases hline : d.line? with
  | none => exact .inl ⟨rfl, htail, .inl rfl⟩
  | some own =>
    by_cases hsame : shown = some own
    · exact .inl ⟨if_pos hsame, htail, .inr hsame.symm⟩
    · refine .inr ⟨own, rfl, hsame, ⟨h.ordered.tail, ?_⟩, if_neg hsame⟩
      rintro _ ⟨⟩ e he m hm
      have hprecedes := List.rel_of_pairwise_cons h.ordered he
      obtain ⟨m', hm', hle⟩ := Diagnostic.line_of_precedes hprecedes hline
      obtain rfl := Option.some.inj (hm'.symm.trans hm)
      exact hle

/-- The lines that are opened: those of the diagnostics, but for the line shown last, each of
    them once. -/
theorem headers_rowsFrom {shown : Option Int} {ds : List Diagnostic} (h : Ascending shown ds) :
    (headers (rowsFrom shown ds)).Pairwise (· < ·) ∧
      ∀ line, line ∈ headers (rowsFrom shown ds) ↔
        (∃ d ∈ ds, d.line? = some line) ∧ shown ≠ some line := by
  induction ds generalizing shown with
  | nil => simp [rowsFrom, headers]
  | cons d ds ih =>
    rcases rowsFrom_cons h with ⟨hrows, hds, hline⟩ | ⟨own, hline, hshown, hds, hrows⟩
    · obtain ⟨hpairwise, hmem⟩ := ih hds
      have hheaders : headers (rowsFrom shown (d :: ds)) = headers (rowsFrom shown ds) := by
        rw [hrows]
        rfl
      rw [hheaders]
      refine ⟨hpairwise, fun line => ?_⟩
      rw [hmem, List.exists_mem_cons_iff]
      constructor
      · rintro ⟨hlater, hne⟩
        exact ⟨.inr hlater, hne⟩
      · rintro ⟨hown | hlater, hne⟩
        · rcases hline with hnone | hsame
          · rw [hnone] at hown
            cases hown
          · exact absurd (hsame.symm.trans hown) hne
        · exact ⟨hlater, hne⟩
    · obtain ⟨hpairwise, hmem⟩ := ih hds
      have hheaders : headers (rowsFrom shown (d :: ds)) = own :: headers (rowsFrom (some own) ds) :=
        congrArg headers hrows
      -- the line that is opened is not before the one shown last and not behind those to come
      have hearlier : ∀ line, shown = some line → line ≤ own := fun line hl =>
        h.later line hl d List.mem_cons_self own hline
      have hlater : ∀ line, (∃ e ∈ ds, e.line? = some line) → own ≤ line := by
        rintro line ⟨e, he, hl⟩
        exact hds.later own rfl e he line hl
      rw [hheaders]
      constructor
      · refine List.pairwise_cons.mpr ⟨fun line hl => ?_, hpairwise⟩
        obtain ⟨hl, hne⟩ := (hmem line).mp hl
        exact lt_of_le_of_ne (hlater line hl) fun heq => hne (congrArg some heq)
      · intro line
        rw [List.mem_cons, hmem, List.exists_mem_cons_iff, hline]
        constructor
        · rintro (rfl | ⟨hl, hne⟩)
          · exact ⟨.inl rfl, hshown⟩
          · refine ⟨.inr hl, fun heq => hne ?_⟩
            rw [Int.le_antisymm (hlater line hl) (hearlier line heq)]
        · rintro ⟨hl | hl, -⟩
          · exact .inl (Option.some.inj hl).symm
          · by_cases heq : line = own
            · exact .inl heq
            · exact .inr ⟨hl, fun hsame => heq (Option.some.inj hsame).symm⟩

theorem mem_headers {rows : List Row} {line : Int} :
    line ∈ headers rows ↔ .header line ∈ rows := by
  unfold headers
  rw [List.mem_filterMap]
  constructor
  · rintro ⟨row, hrow, hline⟩
    cases row with
    | header l =>
      obtain rfl := Option.some.inj hline
      exact hrow
    | entry d => cases hline
  · intro hrow
    exact ⟨_, hrow, rfl⟩

/-- A line that is opened is not the one shown last. -/
theorem rowsFrom_fresh {shown : Option Int} {ds : List Diagnostic} (h : Ascending shown ds)
    {above below : List Row} {line : Int}
    (hrows : rowsFrom shown ds = above ++ .header line :: below) : shown ≠ some line := by
  have hmem : line ∈ headers (rowsFrom shown ds) := by
    rw [mem_headers, hrows]
    simp
  exact (((headers_rowsFrom h).2 line).mp hmem).2

theorem entry_cons_eq_append {d : Diagnostic} {rows above below : List Row} {line : Int}
    (h : .entry d :: rows = above ++ .header line :: below) :
    ∃ above', above = .entry d :: above' ∧ rows = above' ++ .header line :: below := by
  rcases List.cons_eq_append_iff.mp h with ⟨-, heq⟩ | ⟨above', habove, hrows⟩
  · cases heq
  · exact ⟨above', habove, hrows⟩

/-- A line is opened right before its first diagnostic. -/
theorem rowsFrom_before {shown : Option Int} {ds : List Diagnostic} (h : Ascending shown ds)
    {above below : List Row} {line : Int}
    (hrows : rowsFrom shown ds = above ++ .header line :: below) :
    (∃ d rest, below = .entry d :: rest ∧ d.line? = some line) ∧
      ∀ e, .entry e ∈ above → e.line? ≠ some line := by
  induction ds generalizing shown above with
  | nil => simp [rowsFrom] at hrows
  | cons d ds ih =>
    rcases rowsFrom_cons h with ⟨heq, hds, hline⟩ | ⟨own, hline, -, hds, heq⟩
    · rw [heq] at hrows
      obtain ⟨rest, rfl, hrest⟩ := entry_cons_eq_append hrows
      obtain ⟨hfirst, hnone⟩ := ih hds hrest
      have hd : d.line? ≠ some line := by
        rcases hline with hline | hline
        · simp [hline]
        · exact hline ▸ rowsFrom_fresh hds hrest
      exact ⟨hfirst, by simpa [hd] using hnone⟩
    · rw [heq] at hrows
      rcases List.cons_eq_append_iff.mp hrows with ⟨rfl, hopened⟩ | ⟨shownNext, rfl, hnext⟩
      · cases hopened
        exact ⟨⟨d, _, rfl, hline⟩, by simp⟩
      · obtain ⟨rest, rfl, hrest⟩ := entry_cons_eq_append hnext
        obtain ⟨hfirst, hnone⟩ := ih hds hrest
        have hd : d.line? ≠ some line := hline ▸ rowsFrom_fresh hds hrest
        exact ⟨hfirst, by simpa [hd] using hnone⟩

/-! ### Whole listings -/

/-- The rows of a listing are laid out as they should be. -/
theorem laid_rowsFrom (ds : List Diagnostic) : Laid ds (rowsFrom none (sorted ds)) := by
  have hperm : (sorted ds).Perm ds := List.mergeSort_perm ds Diagnostic.precedes
  have hsorted : (sorted ds).Pairwise fun d e => d.precedes e = true :=
    List.pairwise_mergeSort Diagnostic.precedes_trans Diagnostic.precedes_total ds
  have hascending : Ascending none (sorted ds) := ⟨hsorted, by simp⟩
  have hentries := entries_rowsFrom none (sorted ds)
  obtain ⟨hheaders, hmem⟩ := headers_rowsFrom hascending
  constructor
  · rw [hentries]
    exact hperm
  · rw [hentries]
    exact hsorted.imp fun h => Diagnostic.precedes_iff.mp h
  · rw [hentries]
    refine hsorted.imp fun {d e} h he => ?_
    cases hd : d.line? with
    | none => rfl
    | some line =>
      obtain ⟨m, hm, -⟩ := Diagnostic.line_of_precedes h hd
      cases he.symm.trans hm
  · intro k
    rw [hentries]
    exact atKey_sorted k ds
  · intro line
    rw [← mem_headers, hmem, and_iff_left (by simp)]
    simp only [hperm.mem_iff]
  · exact hheaders.imp fun h => Int.ne_of_lt h
  · exact fun above line below hrows => rowsFrom_before hascending hrows

end Listing

namespace Collector

open Listing

end Collector

end PlZero
