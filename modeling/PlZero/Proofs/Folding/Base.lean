/-
  PlZero/Proofs/Folding/Base.lean
  ===============================
  **What a constant stands for.**  A constant is a number of minus signs before its base
  (`Constant.negations`, `Constant.base`), and the base has a value in a table, seen from a scope
  (`SymbolTable.baseValue`).  Folding multiplies the one by the other (`evaluate_eq`).

  `before k` is what a table held before its entry `k` was added.  `Later t u` says that `u` is
  `t` with more in it, whatever was done to get there: names are only added in front, with
  entries that are new, and an entry changes only if it is a procedure.  So a base stands for
  the same among the entries of `t`, now and later (`Later.baseValue`).
-/
import Mathlib.Algebra.Ring.Int.Defs
import PlZero.Proofs.Scope.Linked

namespace PlZero

/-! ### Signs and bases -/

namespace Constant

variable {k : Nat} {c : Constant}

/-- The number of minus signs before a constant. -/
def negations : Constant → Nat
  | negated _ _ operand => operand.negations + 1
  | _ => 0

/-- A constant without the minus signs before it. -/
def base : Constant → Constant
  | negated _ _ operand => operand.base
  | c => c

/-- What is read as a constant is a number, a name or a placeholder behind its signs. -/
theorem InScope.base_cases (h : c.InScope k) :
    (∃ l v, c.base = .number l k v) ∨ (∃ l n, c.base = .named l k n) ∨
      ∃ l, c.base = .error l k := by
  induction c with
  | number l scope v =>
    obtain rfl := h
    exact .inl ⟨l, v, rfl⟩
  | named l scope n =>
    obtain rfl := h
    exact .inr (.inl ⟨l, n, rfl⟩)
  | negated l scope operand ih => exact ih h.2
  | error l scope =>
    obtain rfl := h
    exact .inr (.inr ⟨l, rfl⟩)
  | foreign fragment => exact h.elim

end Constant

/-- The value of an entry, if it is a constant that has one. -/
def Entry.value? (e : Entry) : Option Int :=
  match e.meaning with
  | .constant _ value => value
  | _ => none

theorem Entry.value?_eq_some {e : Entry} {v : Int} :
    e.value? = some v ↔ ∃ tree, e.meaning = .constant tree (some v) := by
  unfold Entry.value?
  cases e.meaning <;> simp

theorem Entry.value?_of_procedure {e : Entry} (h : e.isProcedure) : e.value? = none := by
  obtain ⟨scope, hscope⟩ := Entry.isProcedure_iff.mp h
  simp [Entry.value?, hscope]

namespace SymbolTable

variable {t u v : SymbolTable} {name : String} {l : Location} {m : Meaning} {i k scope : Nat}

/-- The value of the base of a constant, seen from a scope. -/
def baseValue (t : SymbolTable) (scope : Nat) : Constant → Option Int
  | .number _ _ value => some value
  | .named _ _ name => (t.lookupIn scope name).bind Entry.value?
  | _ => none

/-- A constant in a scope of the table is folded to the value of its base with the signs before
    it. -/
theorem evaluate_eq {tree : Constant} (h : tree.InScope scope) (hscope : scope < t.scopes.size) :
    t.evaluate tree =
      .ok ((t.baseValue scope tree.base).map fun v => (-1) ^ tree.negations * v) := by
  induction tree with
  | number l inner value => simp [evaluate, baseValue, Constant.base, Constant.negations]
  | named l inner name =>
    obtain rfl : inner = scope := h
    simp only [evaluate, if_pos hscope, baseValue, Constant.base, Constant.negations]
    cases t.lookupIn inner name with
    | none => rfl
    | some e =>
      obtain ⟨_, _, _, _, meaning⟩ := e
      cases meaning <;> simp [Entry.value?]
  | negated l inner operand ih =>
    simp only [evaluate, ih h.2, Constant.base, Constant.negations, Option.map_map]
    congr 2
    funext v
    rw [Function.comp_apply, Int.pow_succ, Int.mul_neg, Int.mul_one, Int.neg_mul]
  | error l inner => rfl
  | foreign fragment => exact h.elim

/-- A constant of the innermost open scope is declared with the value that is folded. -/
theorem declareConstant_inScope {tree : Constant} (h : tree.InScope t.current)
    (ht : t.current < t.scopes.size) (name : String) (l : Location) :
    ∃ value, t.declareConstant name l tree = .ok (t.declare name l (.constant tree value)) := by
  have hvalue := evaluate_eq h ht
  generalize (t.baseValue t.current tree.base).map _ = value at hvalue
  refine ⟨value, ?_⟩
  unfold declareConstant declare
  rw [hvalue]
  split <;> rfl

/-! ### Tables that grow -/

/-- What a table held before its entry `k` was added. -/
def before (t : SymbolTable) (k : Nat) : SymbolTable :=
  { t with
    entries := t.entries.take k
    scopes := t.scopes.map fun s =>
      { s with declared := s.declared.filter fun p => decide (p.2 < k) } }

theorem before_entries (t : SymbolTable) (k i : Nat) :
    (t.before k).entries[i]? = if i < k then t.entries[i]? else none := by
  show (t.entries.extract 0 k)[i]? = _
  rw [Array.getElem?_extract, Nat.zero_add, Nat.sub_zero]
  by_cases hi : i < k
  · rw [if_pos hi]
    by_cases hsize : i < t.entries.size
    · rw [if_pos (Nat.lt_min.mpr ⟨hi, hsize⟩)]
    · rw [if_neg fun hlt => hsize (Nat.lt_min.mp hlt).2,
        Array.getElem?_eq_none (Nat.le_of_not_lt hsize)]
  · rw [if_neg hi, if_neg fun hlt => hi (Nat.lt_min.mp hlt).1]

/-- One table is another with more in it. -/
structure Later (t u : SymbolTable) : Prop where
  scopes : ∀ (i : Nat) (s : Scope), t.scopes[i]? = some s →
    ∃ added, u.scopes[i]? = some { s with declared := added ++ s.declared } ∧
      ∀ p ∈ added, t.entries.size ≤ p.2
  entries : ∀ (k : Nat) (e : Entry), t.entries[k]? = some e →
    ∃ x, u.entries[k]? = some x ∧ (x = e ∨ e.isProcedure ∧ x.isProcedure)
  entryCount : t.entries.size ≤ u.entries.size

theorem Later.refl (t : SymbolTable) : t.Later t where
  scopes := fun i s hs => ⟨[], hs, by simp⟩
  entries := fun k e he => ⟨e, he, .inl rfl⟩
  entryCount := Nat.le_refl _

theorem Later.trans (h : t.Later u) (h' : u.Later v) : t.Later v where
  scopes := by
    intro i s hs
    obtain ⟨added, hu, hnew⟩ := h.scopes i s hs
    obtain ⟨more, hv, hnewer⟩ := h'.scopes i _ hu
    refine ⟨more ++ added, by rw [hv, List.append_assoc], ?_⟩
    intro p hp
    rcases List.mem_append.mp hp with hp | hp
    · exact Nat.le_trans h.entryCount (hnewer p hp)
    · exact hnew p hp
  entries := by
    intro k e he
    obtain ⟨x, hx, hsame⟩ := h.entries k e he
    obtain ⟨y, hy, hsame'⟩ := h'.entries k x hx
    refine ⟨y, hy, ?_⟩
    rcases hsame with rfl | ⟨hproc, hproc'⟩
    · exact hsame'
    · rcases hsame' with rfl | ⟨-, hproc''⟩
      · exact .inr ⟨hproc, hproc'⟩
      · exact .inr ⟨hproc, hproc''⟩
  entryCount := Nat.le_trans h.entryCount h'.entryCount

theorem append_later : t.Later (t.append name l m).2 where
  scopes := (Later.refl t).scopes
  entries := fun k e he => ⟨e, (append_extends name l m).entries k e he, .inl rfl⟩
  entryCount := (append_extends name l m).entryCount

theorem add_later : t.Later (t.add name l m).2 where
  scopes := by
    intro i s hs
    have hscopes : (t.add name l m).2.scopes = t.scopes.modify t.current fun s =>
        { s with declared := (name, t.entries.size) :: s.declared } := rfl
    rw [hscopes, Array.getElem?_modify, hs]
    by_cases hi : t.current = i
    · rw [if_pos hi]
      exact ⟨[(name, t.entries.size)], rfl, by simp⟩
    · rw [if_neg hi]
      exact ⟨[], rfl, by simp⟩
  entries := append_later.entries
  entryCount := append_later.entryCount

theorem enter_later (owner : Nat) : t.Later (t.enter owner).2 where
  scopes := fun i s hs => ⟨[], enter_scopes_old owner hs, by simp⟩
  entries := by
    intro k e he
    rw [enter_entries, he, Option.map_some]
    by_cases howner : owner = k
    · rw [if_pos howner]
      refine ⟨_, rfl, ?_⟩
      cases hprocedure : e.isProcedure with
      | true => exact .inr ⟨rfl, ((withLocalScope_kept _ e).2.2.2).trans hprocedure⟩
      | false =>
        left
        unfold withLocalScope
        split
        · rename_i hmeaning
          simp [Entry.isProcedure, hmeaning] at hprocedure
        · rfl
    · rw [if_neg howner]
      exact ⟨e, rfl, .inl rfl⟩
  entryCount := Nat.le_of_eq (Array.size_modify ..).symm

theorem leave_later (hu : t.leave = some u) : t.Later u := by
  obtain ⟨hscopes, hentries⟩ := leave_rows hu
  have hrefl := Later.refl t
  constructor
  · rw [hscopes]
    exact hrefl.scopes
  · rw [hentries]
    exact hrefl.entries
  · rw [hentries]

/-! ### What names meant before -/

/-- Names that are new are not among those before. -/
theorem Later.before_declaredIn (h : t.Later u) (hk : k ≤ t.entries.size) {s : Scope}
    (hs : t.scopes[i]? = some s) :
    (u.before k).declaredIn name i = (t.before k).declaredIn name i := by
  obtain ⟨added, hadded, hnew⟩ := h.scopes i s hs
  have hgone : added.filter (fun p => decide (p.2 < k)) = [] := by
    rw [List.filter_eq_nil_iff]
    intro p hp
    have hle := hnew p hp
    simp only [decide_eq_true_eq]
    omega
  simp [declaredIn, before, hadded, hs, List.filter_append, hgone, Scope.find?]

theorem before_path {path : List Nat} (h : t.Path i path) : (t.before k).Path i path := by
  apply h.mono
  intro i s hs
  refine ⟨s.declared.filter fun p => decide (p.2 < k), ?_⟩
  simp [before, hs]

theorem Path.scopes {path : List Nat} (h : t.Path i path) :
    ∀ j ∈ path, ∃ s, t.scopes[j]? = some s := by
  induction h with
  | last hs hparent => simpa using ⟨_, hs⟩
  | next hs hparent hrest ih => simpa using ⟨⟨_, hs⟩, ih⟩

/-- Two tables with the same path and the same names on it resolve a name alike. -/
theorem lookupIndex_of_paths {path : List Nat} (h : t.Path i path) (h' : u.Path i path)
    (hlength : path.length ≤ i + 1)
    (hsame : ∀ j ∈ path, t.declaredIn name j = u.declaredIn name j) :
    t.lookupIndex i name = u.lookupIndex i name := by
  unfold lookupIndex
  rw [resolve_of_path h hlength, resolve_of_path h' hlength]
  clear h h' hlength
  induction path with
  | nil => rfl
  | cons j path ih =>
    obtain ⟨hj, hrest⟩ := List.forall_mem_cons.mp hsame
    rw [List.findSome?_cons, List.findSome?_cons, hj, ih hrest]

/-- A name means the same among the entries before, now and later. -/
theorem Later.before_lookupIndex (h : t.Later u) (hn : t.Nested) (hk : k ≤ t.entries.size)
    (hscope : scope < t.scopes.size) :
    (u.before k).lookupIndex scope name = (t.before k).lookupIndex scope name := by
  obtain ⟨path, hpath, -⟩ := hn.path scope hscope
  have hlater : u.Path scope path := by
    apply hpath.mono
    intro i s hs
    obtain ⟨added, hadded, -⟩ := h.scopes i s hs
    exact ⟨_, hadded⟩
  apply lookupIndex_of_paths (before_path hlater) (before_path hpath) (hn.length_le hpath)
  intro j hj
  obtain ⟨s, hs⟩ := hpath.scopes j hj
  exact h.before_declaredIn hk hs

/-- A name that refers to a small number is still found when large ones are left out. -/
theorem lookup_filter_lt {ps : List (String × Nat)} (h : ∀ i, ps.lookup name = some i → i < k) :
    (ps.filter fun p => decide (p.2 < k)).lookup name = ps.lookup name := by
  induction ps with
  | nil => rfl
  | cons p ps ih =>
    obtain ⟨x, i⟩ := p
    by_cases hx : name = x
    · subst hx
      have hi : i < k := h i (by simp)
      simp [hi]
    · have hne : (name == x) = false := beq_eq_false_iff_ne.mpr hx
      have hrest := ih fun j hj => h j (by rw [List.lookup_cons, hne]; exact hj)
      by_cases hi : i < k
      · simp [hi, List.lookup_cons, hne, hrest]
      · simp [hi, List.lookup_cons, hne, hrest]

/-- Where every name has its entry, all of them are before the next entry. -/
theorem before_next_lookupIndex (hn : t.Nested)
    (hnames : ∀ i name k, t.declaredIn name i = some k → k < t.entries.size)
    (hscope : scope < t.scopes.size) :
    (t.before t.entries.size).lookupIndex scope name = t.lookupIndex scope name := by
  obtain ⟨path, hpath, -⟩ := hn.path scope hscope
  apply lookupIndex_of_paths (before_path hpath) hpath (hn.length_le hpath)
  intro j hj
  obtain ⟨s, hs⟩ := hpath.scopes j hj
  simp only [declaredIn, before, Array.getElem?_map, hs, Option.map_some, Option.bind_some,
    Scope.find?]
  apply lookup_filter_lt
  intro i hi
  exact hnames j name i (by rw [declaredIn_of_scope hs]; exact hi)

/-- The base of a constant stands for the same, now and later. -/
theorem Later.baseValue (h : t.Later u) (hn : t.Nested) (hk : k ≤ t.entries.size)
    (hscope : scope < t.scopes.size) (c : Constant) :
    (u.before k).baseValue scope c = (t.before k).baseValue scope c := by
  cases c with
  | named l inner name =>
    simp only [SymbolTable.baseValue, lookupIn, h.before_lookupIndex hn hk hscope]
    cases (t.before k).lookupIndex scope name with
    | none => rfl
    | some i =>
      simp only [Option.bind_some, before_entries]
      by_cases hi : i < k
      · obtain ⟨x, hx, hsame⟩ :=
          h.entries i _ (Array.getElem?_eq_getElem (Nat.lt_of_lt_of_le hi hk))
        rw [if_pos hi, if_pos hi, hx, Array.getElem?_eq_getElem (Nat.lt_of_lt_of_le hi hk)]
        rcases hsame with rfl | ⟨hprocedure, hprocedure'⟩
        · rfl
        · rw [Option.bind_some, Option.bind_some, Entry.value?_of_procedure hprocedure,
            Entry.value?_of_procedure hprocedure']
      · rw [if_neg hi, if_neg hi]
  | _ => rfl

/-- The base of the next constant is looked up in the table as it is. -/
theorem baseValue_before_next (hn : t.Nested)
    (hnames : ∀ i name k, t.declaredIn name i = some k → k < t.entries.size)
    (hscope : scope < t.scopes.size) (c : Constant) :
    (t.before t.entries.size).baseValue scope c = t.baseValue scope c := by
  cases c with
  | named l inner name =>
    simp only [SymbolTable.baseValue, lookupIn, before_next_lookupIndex hn hnames hscope]
    cases t.lookupIndex scope name with
    | none => rfl
    | some i =>
      simp only [Option.bind_some, before_entries]
      by_cases hi : i < t.entries.size
      · rw [if_pos hi]
      · rw [if_neg hi, Array.getElem?_eq_none (Nat.le_of_not_lt hi)]
  | _ => rfl

end SymbolTable

end PlZero
