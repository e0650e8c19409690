/-
  PlZero/Proofs/Scope/Matched.lean
  ================================
  **Symbol tables that match entry by entry.**  Two tables match under a relation on entries
  if they have the same scopes and related entries at the same numbers.  A name then refers to
  the same number in both, and tables match on as long as what is added to them is related,
  whatever is stored in the entries.
-/
import Mathlib.Data.List.Forall2
import PlZero.Scope.Table

namespace PlZero

/-- Changing the parts of one number alike. -/
theorem forall₂_modify {α : Type} {R : α → α → Prop} {f : α → α} {xs ys : List α}
    (h : List.Forall₂ R xs ys) (hf : ∀ a b, R a b → R (f a) (f b)) (i : Nat) :
    List.Forall₂ R (xs.modify i f) (ys.modify i f) := by
  induction h generalizing i with
  | nil => cases i <;> exact .nil
  | cons head tail ih =>
    cases i with
    | zero => exact .cons (hf _ _ head) tail
    | succ i => exact .cons head (ih i)

namespace SymbolTable

/-- Tables with the same scopes, open and closed, and with related entries. -/
structure Matched (R : Entry → Entry → Prop) (t t' : SymbolTable) : Prop where
  scopes : t.scopes = t'.scopes
  entries : List.Forall₂ R t.entries.toList t'.entries.toList
  current : t.current = t'.current
  enclosing : t.enclosing = t'.enclosing

variable {R : Entry → Entry → Prop} {t t' : SymbolTable} {name : String} {l l' : Location}
  {m m' : Meaning}

theorem Matched.refl [Std.Refl R] (t : SymbolTable) : t.Matched R t :=
  ⟨rfl, List.forall₂_refl t.entries.toList, rfl, rfl⟩

section

variable (h : t.Matched R t')
include h

theorem Matched.size : t.entries.size = t'.entries.size := by
  simpa using h.entries.length_eq

/-- Entries of one number are related. -/
theorem Matched.entry (i : Nat) : Option.Rel R t.entries[i]? t'.entries[i]? := by
  have hentries := h.entries
  rw [← Array.getElem?_toList, ← Array.getElem?_toList]
  generalize t.entries.toList = es at hentries
  generalize t'.entries.toList = es' at hentries
  induction hentries generalizing i with
  | nil => exact .none
  | cons head tail ih =>
    cases i with
    | zero => exact .some head
    | succ i => exact ih i

theorem Matched.isDeclared : t.isDeclared name = t'.isDeclared name := by
  unfold SymbolTable.isDeclared
  rw [h.scopes, h.current]

theorem Matched.resolve (fuel scope : Nat) :
    t.resolve name fuel scope = t'.resolve name fuel scope := by
  induction fuel generalizing scope with
  | zero => rfl
  | succ fuel ih =>
    rw [SymbolTable.resolve, SymbolTable.resolve, h.scopes]
    simp only [ih]

/-- A name refers to the same number. -/
theorem Matched.lookupIndex (scope : Nat) :
    t.lookupIndex scope name = t'.lookupIndex scope name :=
  h.resolve (scope + 1) scope

theorem Matched.lookupIn (scope : Nat) :
    Option.Rel R (t.lookupIn scope name) (t'.lookupIn scope name) := by
  unfold SymbolTable.lookupIn
  rw [h.lookupIndex]
  cases t'.lookupIndex scope name with
  | none => exact .none
  | some i => exact h.entry i

/-! ### Declarations -/

/-- Tables match on if the entries that are added to them are related. -/
theorem Matched.append (hentry : R (t.append name l m).1 (t'.append name l' m').1) :
    (t.append name l m).2.Matched R (t'.append name l' m').2 := by
  refine ⟨h.scopes, ?_, h.current, h.enclosing⟩
  unfold SymbolTable.append at hentry ⊢
  dsimp only at hentry ⊢
  rw [Array.toList_push, Array.toList_push]
  exact List.rel_append h.entries (.cons hentry .nil)

theorem Matched.add (hentry : R (t.append name l m).1 (t'.append name l' m').1) :
    (t.add name l m).2.Matched R (t'.add name l' m').2 := by
  refine ⟨?_, (h.append hentry).entries, h.current, h.enclosing⟩
  unfold SymbolTable.add
  dsimp only
  rw [h.scopes, h.current, h.size]

/-! ### Scopes -/

/-- Tables match on where a scope is opened, as long as entries with the number of their own
    scope are related. -/
theorem Matched.enter
    (hlocal : ∀ n e e', R e e' → R (withLocalScope n e) (withLocalScope n e')) (owner : Nat) :
    (t.enter owner).2.Matched R (t'.enter owner).2 := by
  have hentries : List.Forall₂ R
      (t.entries.toList.modify owner (withLocalScope t.scopes.size))
      (t'.entries.toList.modify owner (withLocalScope t.scopes.size)) :=
    forall₂_modify h.entries (hlocal _) owner
  obtain ⟨hscopes, -, hcurrent, henclosing⟩ := h
  unfold SymbolTable.enter
  rw [← hscopes, ← hcurrent, ← henclosing]
  refine ⟨rfl, ?_, rfl, rfl⟩
  dsimp only
  rw [Array.toList_modify, Array.toList_modify]
  exact hentries

theorem Matched.leave : Option.Rel (Matched R) t.leave t'.leave := by
  obtain ⟨hscopes, hentries, -, henclosing⟩ := h
  unfold SymbolTable.leave
  rw [← henclosing]
  cases t.enclosing with
  | nil => exact .none
  | cons outer rest => exact .some ⟨hscopes, hentries, rfl, rfl⟩

end

end SymbolTable

end PlZero
