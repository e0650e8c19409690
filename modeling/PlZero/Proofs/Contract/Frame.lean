/-
  PlZero/Proofs/Contract/Frame.lean
  =================================
  **What every reader keeps**, on any input.  A reader that returns has only taken tokens
  off the stream; the rules being read, the open scopes and the nesting are as they were;
  entries with numbers below `n` and scopes other than the current one are unchanged
  (`Kept n`).  The places of the stream and of the table stay where they may be, the open
  scopes are in the table and the nesting stays within its limit (`Sound L`).

  `Runs n E L m Q s` puts this frame around `Ends`: from a sound state the reader ends as
  `E` admits or in a sound state that is kept, with a result that satisfies `Q`.  Since
  frames compose, a rule of the grammar is proved by going through its body step by step.
-/
import PlZero.Proofs.Reading.Ends
import PlZero.Proofs.Tree.Proper

namespace PlZero

/-- Every open scope is a scope of the table. -/
def SymbolTable.Opened (t : SymbolTable) : Prop :=
  ∀ i ∈ t.current :: t.enclosing, i < t.scopes.size

/-- A state with all its places in `L`, its open scopes in the table and its nesting within the
    limit, and without a digit run that is too long to read. -/
structure ReaderState.Sound (L : Location → Prop) (s : ReaderState) : Prop where
  clear : s.stream.Clear
  within : s.stream.Within L
  entries : ∀ i e, SymbolTable.mainIndex < i → s.symbols.entries[i]? = some e → e.Proper L
  opened : s.symbols.Opened
  nesting : s.nesting ≤ Grammar.maxNesting

/-- What stays as it is in a symbol table: the open scopes, the scopes other than the
    current one, and the entries below `n`. -/
structure SymbolTable.Kept (n : Nat) (t u : SymbolTable) : Prop where
  current : u.current = t.current
  enclosing : u.enclosing = t.enclosing
  scopes : ∀ i, i < t.scopes.size → i ≠ t.current → u.scopes[i]? = t.scopes[i]?
  scopeCount : t.scopes.size ≤ u.scopes.size
  entries : ∀ i, i < n → u.entries[i]? = t.entries[i]?
  entryCount : t.entries.size ≤ u.entries.size

/-- What stays as it is while something is read. -/
structure ReaderState.Kept (n : Nat) (s t : ReaderState) : Prop where
  onward : s.stream.Onward t.stream
  symbols : s.symbols.Kept n t.symbols
  nesting : t.nesting = s.nesting

namespace SymbolTable

variable {n : Nat} {t u v : SymbolTable}

theorem Kept.refl (n : Nat) (t : SymbolTable) : t.Kept n t :=
  ⟨rfl, rfl, fun _ _ _ => rfl, Nat.le_refl _, fun _ _ => rfl, Nat.le_refl _⟩

theorem Kept.trans (h : t.Kept n u) (h' : u.Kept n v) : t.Kept n v where
  current := h'.current.trans h.current
  enclosing := h'.enclosing.trans h.enclosing
  scopes := by
    intro i hi hne
    rw [h'.scopes i (Nat.lt_of_lt_of_le hi h.scopeCount) (h.current ▸ hne), h.scopes i hi hne]
  scopeCount := Nat.le_trans h.scopeCount h'.scopeCount
  entries := fun i hi => (h'.entries i hi).trans (h.entries i hi)
  entryCount := Nat.le_trans h.entryCount h'.entryCount

/-- The open scopes are the same, and no scope is taken out of a table. -/
theorem Kept.opened (h : t.Kept n u) (ht : t.Opened) : u.Opened := by
  intro i hi
  rw [h.current, h.enclosing] at hi
  exact Nat.lt_of_lt_of_le (ht i hi) h.scopeCount

theorem Opened.current (h : t.Opened) : t.current < t.scopes.size := h _ List.mem_cons_self

theorem Opened.enter (h : t.Opened) (owner : Nat) : (t.enter owner).2.Opened := by
  have hsize : (t.enter owner).2.scopes.size = t.scopes.size + 1 := Array.size_push ..
  intro i hi
  rw [hsize]
  rcases List.mem_cons.mp hi with rfl | hi
  · exact Nat.lt_succ_self _
  · exact Nat.lt_succ_of_lt (h i hi)

/-- A new entry is behind all others. -/
theorem append_kept (hn : n ≤ t.entries.size) (name : String) (l : Location) (m : Meaning) :
    t.Kept n (t.append name l m).2 where
  current := rfl
  enclosing := rfl
  scopes := fun _ _ _ => rfl
  scopeCount := Nat.le_refl _
  entries := fun i hi => Array.getElem?_push_lt (Nat.lt_of_lt_of_le hi hn) |>.trans
    (Array.getElem?_eq_getElem _).symm
  entryCount := by simp [append]

/-- A new name is in the current scope. -/
theorem add_kept (hn : n ≤ t.entries.size) (name : String) (l : Location) (m : Meaning) :
    t.Kept n (t.add name l m).2 where
  current := rfl
  enclosing := rfl
  scopes := by
    intro i _ hne
    show (t.scopes.modify _ _)[i]? = _
    rw [Array.getElem?_modify, if_neg hne.symm]
  scopeCount := by simp [add]
  entries := (append_kept hn name l m).entries
  entryCount := (append_kept hn name l m).entryCount

/-- The scopes around an open one are kept, the innermost of them as well. -/
theorem Kept.scopes_inside {owner i : Nat} (h : (t.enter owner).2.Kept n u)
    (hi : i < t.scopes.size) : u.scopes[i]? = t.scopes[i]? := by
  have hentered : (t.enter owner).2.scopes[i]? = t.scopes[i]? := by
    simp only [enter, Array.getElem?_push_lt hi, Array.getElem?_eq_getElem hi]
  have hlt : i < (t.enter owner).2.scopes.size := by
    simp only [enter, Array.size_push]
    omega
  exact (h.scopes i hlt (Nat.ne_of_lt hi)).trans hentered

/-- A scope that is opened and closed again leaves the open scopes as they were. -/
theorem Kept.inside {owner : Nat} (hn : n ≤ owner) (h : (t.enter owner).2.Kept n u) :
    ∃ v, u.leave = some v ∧ v.entries = u.entries ∧ t.Kept n v := by
  have henclosing : u.enclosing = t.current :: t.enclosing := h.enclosing
  refine ⟨{ u with current := t.current, enclosing := t.enclosing }, ?_, rfl, ?_⟩
  · simp only [leave, henclosing]
  · refine ⟨rfl, rfl, fun i hi _ => h.scopes_inside hi, ?_, ?_, ?_⟩
    · have hcount := h.scopeCount
      simp only [enter, Array.size_push] at hcount
      exact Nat.le_of_succ_le hcount
    · intro i hi
      -- entering changed the entry of the owner alone, which is not below `n`
      refine (h.entries i hi).trans ?_
      show (t.entries.modify _ _)[i]? = _
      rw [Array.getElem?_modify, if_neg (Nat.ne_of_gt (Nat.lt_of_lt_of_le hi hn))]
    · have hcount := h.entryCount
      simpa only [enter, Array.size_modify] using hcount

end SymbolTable

/-! ### Streams -/

namespace Stream

variable {s t u : Stream} {rule : String} {starts recover : KindSet}

theorem Demanded.moved {k : Kind} (h : Demanded k s t) : Moved s t := by
  cases h with
  | here hk => exact .consumed s
  | missing hk moved => exact (Moved.report_head s _).trans moved

/-- A rule that is entered stands before a token that starts it.  If nothing was reported
    it did so from the beginning. -/
theorem Begun.entered (h : Begun rule starts recover s true u) :
    ∃ v, Moved s v ∧ v.head.kind ∈ starts ∧ u = v.opened rule ∧
      (v.reports.length ≤ s.reports.length → v = s) := by
  cases h with
  | here hk => exact ⟨s, .refl s, hk, rfl, fun _ => rfl⟩
  | @found v hk moved start =>
    exact ⟨v, (Moved.report_head s _).trans moved, start, rfl,
      fun hquiet => absurd hquiet moved.toOnward.not_quiet⟩

/-- A rule that is abandoned stands before a token that its caller waits for. -/
theorem Begun.abandoned (h : Begun rule starts recover s false u) :
    Moved s u ∧ (u.head.kind ∈ recover ∨ u.head.kind = .endOfFile) := by
  cases h with
  | lost hk moved waited => exact ⟨(Moved.report_head s _).trans moved, waited⟩

theorem Ended.moved (h : Ended rule recover s u) :
    Moved (s.closed rule) u ∧ (u.head.kind ∈ recover ∨ u.head.kind = .endOfFile) := by
  cases h with
  | here hk => exact ⟨.refl _, .inl hk⟩
  | skipped hk moved waited =>
    exact ⟨(Moved.report_head (s.closed rule) _).trans moved, waited⟩

theorem Within.opened {L : Location → Prop} (h : s.Within L) : (s.opened rule).Within L :=
  ⟨h.head, h.rest, h.reports⟩

theorem Within.closed {L : Location → Prop} (h : s.Within L) : (s.closed rule).Within L :=
  ⟨h.head, h.rest, h.reports⟩

/-- What happens in a rule that is entered and left happens outside as well. -/
theorem Onward.bracket (h : Onward (s.opened rule) t) (h' : Onward (t.closed rule) u) :
    Onward s u where
  rules := by
    have hrules : t.rules = rule :: s.rules := h.rules
    have hclosed : (t.closed rule).rules = s.rules := by
      show t.rules.tail = _
      rw [hrules, List.tail_cons]
    exact h'.rules.trans hclosed
  rest := h'.rest.trans h.rest
  ahead := h'.ahead.trans h.ahead
  journal := (List.suffix_cons _ _).trans
    (h.journal.trans ((List.suffix_cons _ _).trans h'.journal))
  endsLast := fun hs => h'.endsLast (h.endsLast hs)

end Stream

/-! ### States -/

namespace ReaderState

variable {n : Nat} {L : Location → Prop} {s t u : ReaderState}

theorem Kept.refl (n : Nat) (s : ReaderState) : s.Kept n s := ⟨.refl _, .refl _ _, rfl⟩

theorem Kept.trans (h : s.Kept n t) (h' : t.Kept n u) : s.Kept n u :=
  ⟨h.onward.trans h'.onward, h.symbols.trans h'.symbols, h'.nesting.trans h.nesting⟩

theorem Kept.moved {v : Stream} (h : s.stream.Moved v) : s.Kept n (s.withStream v) :=
  ⟨h.toOnward, .refl _ _, rfl⟩

theorem Sound.moved {v : Stream} (hs : s.Sound L) (h : s.stream.Moved v) :
    (s.withStream v).Sound L :=
  ⟨h.toOnward.clear hs.clear, h.within L hs.within, hs.entries, hs.opened, hs.nesting⟩

/-- The head token is one that a caller waits for, or the end of the input. -/
def Waits (recover : KindSet) (s : ReaderState) : Prop :=
  s.stream.head.kind ∈ recover ∨ s.stream.head.kind = .endOfFile

end ReaderState

end PlZero
