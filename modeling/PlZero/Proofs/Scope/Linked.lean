/-
  PlZero/Proofs/Scope/Linked.lean
  ===============================
  **Entries and scopes that refer to each other.**  `Linked` is what a symbol table keeps on
  its own, whatever is asked of it: its scopes are nested, every scope but the predefined one
  belongs to a procedure, and the scope that a procedure has belongs to the procedure.  A new
  entry has no scope yet; opening a scope gives one to the entry that owns it and changes
  nothing else about an entry (`enter_entries_kept`).
-/
import PlZero.Proofs.Scope.Path

namespace PlZero

/-- Whether an entry is one of a procedure. -/
def Entry.isProcedure (e : Entry) : Bool :=
  match e.meaning with
  | .procedure _ => true
  | _ => false

theorem Entry.isProcedure_iff {e : Entry} :
    e.isProcedure = true ↔ ∃ scope, e.meaning = .procedure scope := by
  unfold Entry.isProcedure
  cases e.meaning <;> simp

namespace SymbolTable

variable {t u : SymbolTable}

/-! ### Linked tables -/

/-- Entries know their numbers, a scope other than the predefined one belongs to a procedure,
    and the scope of a procedure belongs to it. -/
structure Linked (t : SymbolTable) : Prop where
  nested : t.Nested
  numbered : ∀ (k : Nat) (e : Entry), t.entries[k]? = some e → e.index = k
  owned : ∀ (i : Nat) (s : Scope), t.scopes[i]? = some s → i ≠ 0 →
    ∃ k e, s.owner = some k ∧ t.entries[k]? = some e ∧ e.isProcedure
  housed : ∀ (k : Nat) (e : Entry) (i : Nat), t.entries[k]? = some e →
    e.meaning = .procedure (some i) → t.Houses k i

theorem Linked.bare : bare.Linked where
  nested := .bare
  numbered := by simp [SymbolTable.bare]
  owned := by
    intro i s hs hne
    cases i with
    | zero => exact absurd rfl hne
    | succ i => simp [SymbolTable.bare] at hs
  housed := by simp [SymbolTable.bare]

/-- A table stays linked when an entry without a scope of its own is added. -/
theorem Linked.push {e : Entry} (h : t.Linked) (hu : t.Extends u)
    (hsize : u.scopes.size = t.scopes.size) (hcurrent : u.current = t.current)
    (henclosing : u.enclosing = t.enclosing) (hentries : u.entries = t.entries.push e)
    (hindex : e.index = t.entries.size) (hmeaning : ∀ i, e.meaning ≠ .procedure (some i)) :
    u.Linked := by
  have hcases : ∀ (k : Nat) (x : Entry), u.entries[k]? = some x →
      t.entries[k]? = some x ∨ k = t.entries.size ∧ x = e := by
    intro k x hx
    rw [hentries, Array.getElem?_push] at hx
    by_cases hk : k = t.entries.size
    · rw [if_pos hk] at hx
      exact .inr ⟨hk, (Option.some.inj hx).symm⟩
    · rw [if_neg hk] at hx
      exact .inl hx
  constructor
  · exact h.nested.extend hu hsize hcurrent henclosing
  · intro k x hx
    rcases hcases k x hx with hx | ⟨rfl, rfl⟩
    · exact h.numbered k x hx
    · exact hindex
  · intro i s hs hne
    obtain ⟨before, hbefore, hsame⟩ := hu.scope_of_size hsize hs
    obtain ⟨k, x, howner, hx, hprocedure⟩ := h.owned i before hbefore hne
    rw [hsame]
    exact ⟨k, x, howner, hu.entries k x hx, hprocedure⟩
  · intro k x i hx hlocal
    rcases hcases k x hx with hx | ⟨rfl, rfl⟩
    · exact (h.housed k x i hx hlocal).mono hu
    · exact absurd hlocal (hmeaning i)

theorem Linked.append {name : String} {l : Location} {m : Meaning} (h : t.Linked)
    (hm : ∀ i, m ≠ .procedure (some i)) : (t.append name l m).2.Linked :=
  h.push (append_extends name l m) rfl rfl rfl rfl rfl hm

theorem Linked.add {name : String} {l : Location} {m : Meaning} (h : t.Linked)
    (hm : ∀ i, m ≠ .procedure (some i)) : (t.add name l m).2.Linked :=
  h.push (add_extends name l m) (Array.size_modify ..) rfl rfl rfl rfl hm

/-- A new name means the new entry in the current scope, and other names mean what they did. -/
theorem add_find? {name : String} {l : Location} {m : Meaning} {i : Nat} {x : Scope}
    (hx : (t.add name l m).2.scopes[i]? = some x) :
    ∃ s, t.scopes[i]? = some s ∧ ∀ other, x.find? other =
      if i = t.current ∧ other = name then some t.entries.size else s.find? other := by
  have hx : (t.scopes.modify t.current _)[i]? = some x := hx
  rw [Array.getElem?_modify] at hx
  by_cases hi : t.current = i
  · rw [if_pos hi] at hx
    obtain ⟨s, hs, rfl⟩ := Option.map_eq_some_iff.mp hx
    refine ⟨s, hs, ?_⟩
    intro other
    by_cases hname : other = name
    · simp [Scope.find?, hi, hname]
    · have hne : (other == name) = false := beq_eq_false_iff_ne.mpr hname
      simp [Scope.find?, List.lookup_cons, hne, hname]
  · rw [if_neg hi] at hx
    exact ⟨x, hx, fun other => by simp [Ne.symm hi]⟩

/-! ### Opening and closing scopes -/

/-- An entry of a table in which a scope was opened. -/
theorem enter_entries (owner k : Nat) :
    (t.enter owner).2.entries[k]? = t.entries[k]?.map fun e =>
      if owner = k then withLocalScope t.scopes.size e else e := by
  show (t.entries.modify owner (withLocalScope t.scopes.size))[k]? = _
  rw [Array.getElem?_modify]
  by_cases howner : owner = k
  · simp [howner]
  · simp [howner]

theorem withLocalScope_kept (i : Nat) (e : Entry) :
    (withLocalScope i e).name = e.name ∧ (withLocalScope i e).scope = e.scope ∧
      (withLocalScope i e).index = e.index ∧
      (withLocalScope i e).isProcedure = e.isProcedure := by
  unfold withLocalScope Entry.isProcedure
  cases h : e.meaning <;> simp [h]

/-- Opening a scope changes an entry in no more than its scope. -/
theorem enter_entries_kept {k : Nat} {e : Entry} (owner : Nat) (he : t.entries[k]? = some e) :
    ∃ x, (t.enter owner).2.entries[k]? = some x ∧ x.name = e.name ∧ x.scope = e.scope ∧
      x.index = e.index ∧ x.isProcedure = e.isProcedure := by
  rw [enter_entries, he, Option.map_some]
  by_cases howner : owner = k
  · rw [if_pos howner]
    exact ⟨_, rfl, withLocalScope_kept _ e⟩
  · rw [if_neg howner]
    exact ⟨e, rfl, rfl, rfl, rfl, rfl⟩

theorem withLocalScope_of_procedure {e : Entry} (i : Nat) (he : e.isProcedure) :
    (withLocalScope i e).meaning = .procedure (some i) := by
  obtain ⟨scope, hscope⟩ := Entry.isProcedure_iff.mp he
  simp [withLocalScope, hscope]

theorem Linked.enter {owner : Nat} {e : Entry} (h : t.Linked)
    (he : t.entries[owner]? = some e) (hprocedure : e.isProcedure) :
    (t.enter owner).2.Linked := by
  obtain ⟨around, haround⟩ := h.nested.stack.scope
  constructor
  · exact h.nested.enter owner
  · intro k x hx
    rw [enter_entries] at hx
    obtain ⟨before, hbefore, -⟩ := Option.map_eq_some_iff.mp hx
    obtain ⟨y, hy, -, -, hindex, -⟩ := enter_entries_kept owner hbefore
    rw [enter_entries, hx] at hy
    obtain rfl := Option.some.inj hy
    rw [hindex]
    exact h.numbered k before hbefore
  · intro i s hs hne
    rcases enter_scopes_cases haround hs with hs | ⟨rfl, rfl⟩
    · obtain ⟨k, x, howner, hx, hproc⟩ := h.owned i s hs hne
      obtain ⟨y, hy, -, -, -, hkept⟩ := enter_entries_kept owner hx
      exact ⟨k, y, howner, hy, hkept ▸ hproc⟩
    · obtain ⟨y, hy, -, -, -, hkept⟩ := enter_entries_kept owner he
      exact ⟨owner, y, rfl, hy, hkept ▸ hprocedure⟩
  · intro k x i hx hlocal
    have hx' := hx
    rw [enter_entries] at hx'
    obtain ⟨before, hbefore, hsame⟩ := Option.map_eq_some_iff.mp hx'
    by_cases howner : owner = k
    · subst howner
      obtain rfl := Option.some.inj (he.symm.trans hbefore)
      rw [if_pos rfl] at hsame
      rw [← hsame, withLocalScope_of_procedure _ hprocedure] at hlocal
      obtain rfl : t.scopes.size = i := by simpa using hlocal
      have hnew := enter_scopes_new haround owner
      exact ⟨x, _, hx, hsame ▸ withLocalScope_of_procedure _ hprocedure, hnew, rfl⟩
    · rw [if_neg howner] at hsame
      subst hsame
      obtain ⟨-, s, -, -, hs, hk⟩ := h.housed k before i hbefore hlocal
      exact ⟨before, s, hx, hlocal, enter_scopes_old owner hs, hk⟩

theorem leave_rows (hu : t.leave = some u) : u.scopes = t.scopes ∧ u.entries = t.entries := by
  unfold leave at hu
  split at hu
  · cases hu
  · obtain rfl := Option.some.inj hu
    exact ⟨rfl, rfl⟩

theorem Linked.leave (h : t.Linked) (hu : t.leave = some u) : u.Linked := by
  obtain ⟨hscopes, hentries⟩ := leave_rows hu
  constructor
  · exact h.nested.leave hu
  · rw [hentries]
    exact h.numbered
  · rw [hscopes, hentries]
    exact h.owned
  · unfold Houses
    rw [hscopes, hentries]
    exact h.housed

end SymbolTable

end PlZero
