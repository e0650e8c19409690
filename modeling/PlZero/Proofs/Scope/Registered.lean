/-
  PlZero/Proofs/Scope/Registered.lean
  ===================================
  **How a symbol table grows with the tree.**  While the declarations of one scope are read,
  the table gains names, and for every procedure an entry and a scope that name each other
  (`Houses`).  `Registered t procedures u` says what the table `u` has that `t` had not, and
  what the procedures that were read have to do with it: their scopes are numbered in the
  order in which their blocks begin, each of them is recorded where its tree says
  (`Declares`), and no number of a scope has gone astray.

  Registrations compose (`Registered.trans`), and there are two ways to begin one: a name is
  declared (`Registered.add`), or a procedure is read in a scope of its own
  (`Registered.procedure`), whether or not its name was free.
-/
import Mathlib.Data.List.Range
import PlZero.Proofs.Scope.InScope

namespace PlZero

namespace SymbolTable

/-- The entry `k` is a procedure with the scope `i`, which is owned by it. -/
def Houses (t : SymbolTable) (k i : Nat) : Prop :=
  ∃ e s, t.entries[k]? = some e ∧ e.meaning = .procedure (some i) ∧
    t.scopes[i]? = some s ∧ s.owner = some k

/-- A procedure of a block in the scope `k` is recorded as its tree says. -/
def Declares (t : SymbolTable) (k : Nat) (p : Procedure) : Prop :=
  ∃ e s, t.entries[p.entry]? = some e ∧ e.name = p.name ∧ e.scope = k ∧
    e.meaning = .procedure (some p.block.scope) ∧
    t.scopes[p.block.scope]? = some s ∧ s.owner = some p.entry ∧ s.parent = some k

/-- A table with more in it.  Entries stay as they are, and scopes do but for their names. -/
structure Extends (t u : SymbolTable) : Prop where
  scopes : ∀ (i : Nat) (s : Scope), t.scopes[i]? = some s →
    ∃ names, u.scopes[i]? = some { s with declared := names }
  entries : ∀ (i : Nat) (e : Entry), t.entries[i]? = some e → u.entries[i]? = some e
  scopeCount : t.scopes.size ≤ u.scopes.size
  entryCount : t.entries.size ≤ u.entries.size

/-- What was registered on the way from one table to another. -/
structure Registered (t : SymbolTable) (procedures : List Procedure) (u : SymbolTable) :
    Prop where
  extended : t.Extends u
  current : u.current = t.current
  enclosing : u.enclosing = t.enclosing
  numbered : (Procedure.preorderAll procedures).map Block.scope =
    List.range' t.scopes.size (u.scopes.size - t.scopes.size)
  declared : ∀ p ∈ procedures, u.Declares t.current p
  inside : ∀ b ∈ Procedure.preorderAll procedures,
    (∀ p ∈ b.procedures, u.Declares b.scope p) ∧ b.body.InScope b.scope
  entries : ∀ i e, t.entries.size ≤ i → u.entries[i]? = some e → e.meaning.InScope e.scope
  owned : ∀ i, t.scopes.size ≤ i → i < u.scopes.size → ∃ k, u.Houses k i
  housed : ∀ k e scope, t.entries.size ≤ k → u.entries[k]? = some e →
    e.meaning = .procedure scope → ∃ i, u.Houses k i

variable {t u v : SymbolTable} {ps qs : List Procedure}

/-! ### Growing tables -/

theorem Houses.unique_left {k k' i : Nat} (h : t.Houses k i) (h' : t.Houses k' i) : k = k' := by
  obtain ⟨-, s, -, -, hs, hk⟩ := h
  obtain ⟨-, s', -, -, hs', hk'⟩ := h'
  rw [hs] at hs'
  obtain rfl := Option.some.inj hs'
  rw [hk] at hk'
  exact Option.some.inj hk'

theorem Houses.unique_right {k i i' : Nat} (h : t.Houses k i) (h' : t.Houses k i') : i = i' := by
  obtain ⟨e, -, he, hi, -⟩ := h
  obtain ⟨e', -, he', hi', -⟩ := h'
  rw [he] at he'
  obtain rfl := Option.some.inj he'
  rw [hi] at hi'
  simpa using hi'

theorem Extends.refl (t : SymbolTable) : t.Extends t where
  scopes := by
    intro i s hs
    exact ⟨s.declared, hs⟩
  entries := fun _ _ he => he
  scopeCount := Nat.le_refl _
  entryCount := Nat.le_refl _

theorem Extends.trans (h : t.Extends u) (h' : u.Extends v) : t.Extends v where
  scopes := by
    intro i s hs
    obtain ⟨names, hu⟩ := h.scopes i s hs
    obtain ⟨names', hv⟩ := h'.scopes i _ hu
    exact ⟨names', hv⟩
  entries := fun i e he => h'.entries i e (h.entries i e he)
  scopeCount := Nat.le_trans h.scopeCount h'.scopeCount
  entryCount := Nat.le_trans h.entryCount h'.entryCount

theorem Houses.mono {k i : Nat} (h : t.Houses k i) (hu : t.Extends u) : u.Houses k i := by
  obtain ⟨e, s, he, hi, hs, hk⟩ := h
  obtain ⟨names, hs'⟩ := hu.scopes i s hs
  exact ⟨e, _, hu.entries k e he, hi, hs', hk⟩

theorem Declares.mono {k : Nat} {p : Procedure} (h : t.Declares k p) (hu : t.Extends u) :
    u.Declares k p := by
  obtain ⟨e, s, he, hname, hscope, hi, hs, hk, hparent⟩ := h
  obtain ⟨names, hs'⟩ := hu.scopes _ s hs
  exact ⟨e, _, hu.entries _ e he, hname, hscope, hi, hs', hk, hparent⟩

/-! ### Registrations -/

theorem Registered.refl (t : SymbolTable) : t.Registered [] t where
  extended := .refl t
  current := rfl
  enclosing := rfl
  numbered := by simp [Procedure.preorderAll]
  declared := by simp
  inside := by simp [Procedure.preorderAll]
  entries := by
    intro i e hi he
    rw [Array.getElem?_eq_none hi] at he
    cases he
  owned := fun i hi hlt => absurd hlt (Nat.not_lt_of_le hi)
  housed := by
    intro k e _ hk he _
    rw [Array.getElem?_eq_none hk] at he
    cases he

theorem Registered.trans (h : t.Registered ps u) (h' : u.Registered qs v) :
    t.Registered (ps ++ qs) v where
  extended := h.extended.trans h'.extended
  current := h'.current.trans h.current
  enclosing := h'.enclosing.trans h.enclosing
  numbered := by
    have hcount := h.extended.scopeCount
    have hcount' := h'.extended.scopeCount
    rw [Procedure.preorderAll_append, List.map_append, h.numbered, h'.numbered]
    have hstart : u.scopes.size = t.scopes.size + (u.scopes.size - t.scopes.size) := by omega
    have hlength : v.scopes.size - t.scopes.size =
        (u.scopes.size - t.scopes.size) + (v.scopes.size - u.scopes.size) := by omega
    rw [hlength, ← List.range'_append_1, ← hstart]
  declared := by
    intro p hp
    rcases List.mem_append.mp hp with hp | hp
    · exact (h.declared p hp).mono h'.extended
    · rw [← h.current]
      exact h'.declared p hp
  inside := by
    intro b hb
    rw [Procedure.preorderAll_append] at hb
    rcases List.mem_append.mp hb with hb | hb
    · obtain ⟨hprocedures, hbody⟩ := h.inside b hb
      exact ⟨fun p hp => (hprocedures p hp).mono h'.extended, hbody⟩
    · exact h'.inside b hb
  entries := by
    intro i e hi he
    by_cases hlt : i < u.entries.size
    · have hu := h'.extended.entries i _ (Array.getElem?_eq_getElem hlt)
      rw [he] at hu
      obtain rfl := Option.some.inj hu
      exact h.entries i _ hi (Array.getElem?_eq_getElem hlt)
    · exact h'.entries i e (Nat.le_of_not_lt hlt) he
  owned := by
    intro i hi hlt
    by_cases hu : i < u.scopes.size
    · obtain ⟨k, hk⟩ := h.owned i hi hu
      exact ⟨k, hk.mono h'.extended⟩
    · exact h'.owned i (Nat.le_of_not_lt hu) hlt
  housed := by
    intro k e scope hk he hscope
    by_cases hlt : k < u.entries.size
    · have hu := h'.extended.entries k _ (Array.getElem?_eq_getElem hlt)
      rw [he] at hu
      obtain rfl := Option.some.inj hu
      obtain ⟨i, hi⟩ := h.housed k _ scope hk (Array.getElem?_eq_getElem hlt) hscope
      exact ⟨i, hi.mono h'.extended⟩
    · exact h'.housed k e scope (Nat.le_of_not_lt hlt) he hscope

/-! ### Names -/

section

variable {name : String} {l : Location} {m : Meaning} {r : Entry × SymbolTable}

theorem declare_some (h : t.declare name l m = some r) : r = t.add name l m := by
  unfold declare at h
  split at h
  · cases h
  · exact (Option.some.inj h).symm

/-- A constant that is declared gets the value that it is folded to. -/
theorem declareConstant_added {tree : Constant}
    (h : t.declareConstant name l tree = .ok (some r)) :
    ∃ value, t.evaluate tree = .ok value ∧ r = t.add name l (.constant tree value) := by
  unfold declareConstant at h
  split at h
  · cases h
  · split at h
    · rename_i value hvalue
      cases h
      exact ⟨value, hvalue, rfl⟩
    · cases h

end

theorem append_extends (name : String) (l : Location) (m : Meaning) :
    t.Extends (t.append name l m).2 where
  scopes := (Extends.refl t).scopes
  entries := by
    intro i e he
    have hi : i < t.entries.size := (Array.getElem?_eq_some_iff.mp he).1
    show (t.entries.push _)[i]? = some e
    rw [Array.getElem?_push_lt hi, ← he, Array.getElem?_eq_getElem hi]
  scopeCount := Nat.le_refl _
  entryCount := by simp [append]

theorem add_extends (name : String) (l : Location) (m : Meaning) :
    t.Extends (t.add name l m).2 where
  scopes := by
    intro i s hs
    show ∃ names, (t.scopes.modify _ _)[i]? = _
    rw [Array.getElem?_modify, hs]
    by_cases hi : t.current = i
    · rw [if_pos hi]
      exact ⟨_, rfl⟩
    · rw [if_neg hi]
      exact ⟨s.declared, rfl⟩
  entries := (append_extends name l m).entries
  scopeCount := by simp [add]
  entryCount := (append_extends name l m).entryCount

/-- A name other than that of a procedure is declared. -/
theorem Registered.add (name : String) (l : Location) {m : Meaning}
    (hm : m.InScope t.current) (hother : ∀ scope, m ≠ .procedure scope) :
    t.Registered [] (t.add name l m).2 where
  extended := add_extends name l m
  current := rfl
  enclosing := rfl
  numbered := by simp [Procedure.preorderAll, SymbolTable.add]
  declared := by simp
  inside := by simp [Procedure.preorderAll]
  entries := by
    intro i e hi he
    have hpush : (t.entries.push ⟨name, l, t.current, t.entries.size, m⟩)[i]? = some e := he
    rw [Array.getElem?_push] at hpush
    split at hpush
    · obtain rfl := Option.some.inj hpush
      exact hm
    · rw [Array.getElem?_eq_none hi] at hpush
      cases hpush
  owned := by
    intro i hi hlt
    simp only [SymbolTable.add, Array.size_modify] at hlt
    exact absurd hlt (Nat.not_lt_of_le hi)
  housed := by
    intro k e scope hk he hscope
    have hpush : (t.entries.push ⟨name, l, t.current, t.entries.size, m⟩)[k]? = some e := he
    rw [Array.getElem?_push] at hpush
    split at hpush
    · obtain rfl := Option.some.inj hpush
      exact absurd hscope (hother scope)
    · rw [Array.getElem?_eq_none hk] at hpush
      cases hpush

/-! ### Procedures -/

/-- A procedure gets an entry, which its name refers to unless the name is taken. -/
def EntryAdded (t : SymbolTable) (e : Entry) (u : SymbolTable) : Prop :=
  ∃ l, (e, u) = t.add e.name l (.procedure none) ∨ (e, u) = t.append e.name l (.procedure none)

theorem EntryAdded.extends {e : Entry} (h : t.EntryAdded e u) : t.Extends u := by
  obtain ⟨l, h | h⟩ := h
  · have hu : u = (t.add e.name l (.procedure none)).2 := congrArg Prod.snd h
    rw [hu]
    exact add_extends _ _ _
  · have hu : u = (t.append e.name l (.procedure none)).2 := congrArg Prod.snd h
    rw [hu]
    exact append_extends _ _ _

/-- What a table holds once the entry of a procedure was added. -/
theorem EntryAdded.table {e : Entry} (h : t.EntryAdded e u) :
    e.index = t.entries.size ∧ e.scope = t.current ∧ e.meaning = .procedure none ∧
      u.entries = t.entries.push e ∧ u.scopes.size = t.scopes.size ∧
      u.current = t.current ∧ u.enclosing = t.enclosing := by
  obtain ⟨l, h | h⟩ := h
  · obtain ⟨he, rfl⟩ := Prod.mk.inj h
    have hpush : (t.add e.name l (.procedure none)).2.entries = t.entries.push e := by rw [he]; rfl
    refine ⟨?_, ?_, ?_, hpush, Array.size_modify .., rfl, rfl⟩
    · rw [he]
    · rw [he]
    · rw [he]
  · obtain ⟨he, rfl⟩ := Prod.mk.inj h
    have hpush : (t.append e.name l (.procedure none)).2.entries = t.entries.push e := by
      rw [he]; rfl
    refine ⟨?_, ?_, ?_, hpush, rfl, rfl, rfl⟩
    · rw [he]
    · rw [he]
    · rw [he]

/-- The table in which the body of a procedure is read: the entry and the scope of the
    procedure name each other, and everything older is as it was. -/
theorem EntryAdded.entered {e : Entry} (h : t.EntryAdded e u) :
    t.Extends (u.enter e.index).2 ∧
      (u.enter e.index).2.entries.size = t.entries.size + 1 ∧
      (u.enter e.index).2.entries[e.index]? =
        some { e with meaning := .procedure (some t.scopes.size) } ∧
      (u.enter e.index).2.scopes.size = t.scopes.size + 1 ∧
      ∃ s, (u.enter e.index).2.scopes[t.scopes.size]? = some s ∧ s.owner = some e.index ∧
        s.parent = some t.current := by
  obtain ⟨hindex, -, hmeaning, hentries, hscopes, hcurrent, -⟩ := h.table
  have hlast : (u.enter e.index).2.entries =
      u.entries.modify e.index (withLocalScope u.scopes.size) := rfl
  have hpushed : (u.enter e.index).2.scopes.size = u.scopes.size + 1 := Array.size_push _
  refine ⟨⟨?_, ?_, ?_, ?_⟩, ?_, ?_, ?_, ?_⟩
  · intro i s hs
    obtain ⟨names, hu⟩ := h.extends.scopes i s hs
    have hi : i < u.scopes.size := (Array.getElem?_eq_some_iff.mp hu).1
    refine ⟨names, ?_⟩
    show (u.scopes.push _)[i]? = _
    rw [Array.getElem?_push_lt hi, ← hu, Array.getElem?_eq_getElem hi]
  · intro i x hx
    have hi : i < t.entries.size := (Array.getElem?_eq_some_iff.mp hx).1
    have hne : e.index ≠ i := by omega
    rw [hlast, Array.getElem?_modify, if_neg hne]
    exact h.extends.entries i x hx
  · omega
  · rw [hlast, Array.size_modify]
    exact h.extends.entryCount
  · rw [hlast, Array.size_modify, hentries, Array.size_push]
  · have hget : u.entries[e.index]? = some e := by
      rw [hentries, hindex, Array.getElem?_push_size]
    have hlocal : withLocalScope t.scopes.size e =
        { e with meaning := .procedure (some t.scopes.size) } := by
      simp only [withLocalScope, hmeaning]
    rw [hlast, Array.getElem?_modify, if_pos rfl, hget, Option.map_some, hscopes, hlocal]
  · omega
  · rw [← hscopes, ← hcurrent]
    exact ⟨_, Array.getElem?_push_size, rfl, rfl⟩

/-- A procedure is read in a scope of its own. -/
theorem Registered.procedure {e : Entry} {w w' : SymbolTable} {inner : List Procedure}
    {body : Statement} {l l' : Location} (hentry : t.EntryAdded e u)
    (hinner : (u.enter e.index).2.Registered inner w)
    (hbody : body.InScope (u.enter e.index).1) (hleave : w.leave = some w') :
    t.Registered [.mk l e.name e.index (.mk l' (u.enter e.index).1 inner body)] w' := by
  obtain ⟨hindex, hscope, -, -, hscopes, hcurrent, henclosing⟩ := hentry.table
  obtain ⟨hextends, hentryCount, he, hscopeCount, s, hs, howner, hparent⟩ := hentry.entered
  have hnumber : (u.enter e.index).1 = t.scopes.size := hscopes
  have hinside : w.enclosing = u.current :: u.enclosing := hinner.enclosing
  obtain rfl : { w with current := u.current, enclosing := u.enclosing } = w' := by
    unfold leave at hleave
    rw [hinside] at hleave
    exact Option.some.inj hleave
  obtain ⟨names, hs'⟩ := hinner.extended.scopes _ s hs
  have he' := hinner.extended.entries _ _ he
  have hdeclares : w.Declares t.current
      (.mk l e.name e.index (.mk l' (u.enter e.index).1 inner body)) := by
    refine ⟨_, { s with declared := names }, he', rfl, hscope, ?_, ?_, howner, hparent⟩
    · exact congrArg (fun n => Meaning.procedure (some n)) hnumber.symm
    · show w.scopes[(u.enter e.index).1]? = _
      rw [hnumber]
      exact hs'
  have hhouses : w.Houses e.index t.scopes.size := ⟨_, _, he', rfl, hs', howner⟩
  have hlarger := hinner.extended.scopeCount
  refine ⟨⟨?_, ?_, ?_, ?_⟩, hcurrent, henclosing, ?_, ?_, ?_, ?_, ?_, ?_⟩
  · exact (hextends.trans hinner.extended).scopes
  · exact (hextends.trans hinner.extended).entries
  · exact (hextends.trans hinner.extended).scopeCount
  · exact (hextends.trans hinner.extended).entryCount
  · show (Block.preorder _ ++ []).map Block.scope = List.range' t.scopes.size (w.scopes.size - _)
    have hlength : w.scopes.size - t.scopes.size =
        (w.scopes.size - (t.scopes.size + 1)) + 1 := by omega
    rw [List.append_nil, Block.preorder, List.map_cons, hinner.numbered, hscopeCount, hlength,
      List.range'_succ]
    rw [Block.scope, hnumber]
  · intro p hp
    obtain rfl := List.mem_singleton.mp hp
    exact hdeclares
  · intro b hb
    rw [Procedure.preorderAll, Procedure.preorderAll, List.append_nil, Procedure.preorder,
      Block.preorder] at hb
    rcases List.mem_cons.mp hb with rfl | hb
    · exact ⟨hinner.declared, hbody⟩
    · exact hinner.inside b hb
  · intro i x hi hx
    by_cases hnew : i = e.index
    · subst hnew
      have hx' : w.entries[e.index]? = some x := hx
      rw [he'] at hx'
      obtain rfl := Option.some.inj hx'
      exact trivial
    · exact hinner.entries i x (by omega) hx
  · intro i hi hlt
    by_cases hnew : i = t.scopes.size
    · subst hnew
      exact ⟨e.index, hhouses⟩
    · exact hinner.owned i (by omega) hlt
  · intro k x scope hk hx hmeaning
    by_cases hnew : k = e.index
    · subst hnew
      exact ⟨_, hhouses⟩
    · exact hinner.housed k x scope (by omega) hx hmeaning

end SymbolTable

end PlZero
