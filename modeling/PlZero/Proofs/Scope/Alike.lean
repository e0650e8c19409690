/-
  PlZero/Proofs/Scope/Alike.lean
  ==============================
  **Symbol tables that are alike up to places.**  Two tables are alike if they have the same
  scopes and their entries are alike one by one, values of constants included.  Then every name
  is resolved alike in them, every constant is folded to the same value, and whatever is
  declared in both leaves them alike.
-/
import PlZero.Proofs.Scope.Matched
import PlZero.Proofs.Tree.Alike

namespace PlZero

variable {near : Location → Location → Prop}

/-! ### Entries -/

/-- What names stand for, up to places. -/
inductive Meaning.Alike (near : Location → Location → Prop) : Meaning → Meaning → Prop
  | constant {c c' : Constant} (tree : c.Alike near c') (value : Option Int) :
      Alike near (.constant c value) (.constant c' value)
  | type {t t' : TypeExpr} (definition : t.Alike near t') : Alike near (.type t) (.type t')
  | variableOf {t t' : TypeExpr} (base : t.Alike near t') :
      Alike near (.variableOf t) (.variableOf t')
  | procedure (localScope : Option Nat) : Alike near (.procedure localScope) (.procedure localScope)

/-- Entries that are alike up to places. -/
structure Entry.Alike (near : Location → Location → Prop) (e e' : Entry) : Prop where
  name : e.name = e'.name
  place : near e.location e'.location
  scope : e.scope = e'.scope
  index : e.index = e'.index
  meaning : e.meaning.Alike near e'.meaning

instance [Std.Refl near] : Std.Refl (Meaning.Alike near) where
  refl m := by
    cases m with
    | constant tree value => exact .constant (Std.Refl.refl tree) value
    | type definition => exact .type (Std.Refl.refl definition)
    | variableOf base => exact .variableOf (Std.Refl.refl base)
    | procedure localScope => exact .procedure localScope

instance [Std.Refl near] : Std.Refl (Entry.Alike near) :=
  ⟨fun e => ⟨rfl, Std.Refl.refl e.location, rfl, rfl, Std.Refl.refl e.meaning⟩⟩

instance optionRelRefl {α : Type} {R : α → α → Prop} [Std.Refl R] : Std.Refl (Option.Rel R) where
  refl x := by
    cases x with
    | none => exact .none
    | some a => exact .some (Std.Refl.refl a)

namespace SymbolTable

/-! ### Tables -/

/-- Tables that are alike up to places. -/
structure Alike (near : Location → Location → Prop) (t t' : SymbolTable) : Prop where
  scopes : t.scopes = t'.scopes
  entries : List.Forall₂ (Entry.Alike near) t.entries.toList t'.entries.toList
  current : t.current = t'.current
  enclosing : t.enclosing = t'.enclosing

instance [Std.Refl near] : Std.Refl (Alike near) :=
  ⟨fun t => ⟨rfl, Std.Refl.refl t.entries.toList, rfl, rfl⟩⟩

/-- What was added to tables: entries that are alike, and the tables with them. -/
structure Added (near : Location → Location → Prop) (r r' : Entry × SymbolTable) : Prop where
  entry : r.1.Alike near r'.1
  table : r.2.Alike near r'.2

instance [Std.Refl near] : Std.Refl (Added near) :=
  ⟨fun r => ⟨Std.Refl.refl r.1, Std.Refl.refl r.2⟩⟩

variable {t t' : SymbolTable} {name : String} {l l' : Location} {m m' : Meaning}

/-- Tables that are alike match, and so do those that match with entries that are alike. -/
theorem alike_iff : t.Alike near t' ↔ t.Matched (Entry.Alike near) t' :=
  ⟨fun h => ⟨h.scopes, h.entries, h.current, h.enclosing⟩,
    fun h => ⟨h.scopes, h.entries, h.current, h.enclosing⟩⟩

section

variable (h : t.Alike near t')
include h

theorem Alike.matched : t.Matched (Entry.Alike near) t' := alike_iff.mp h

theorem Alike.isDeclared : t.isDeclared name = t'.isDeclared name := h.matched.isDeclared

/-- A name is resolved alike. -/
theorem Alike.lookupIn (scope : Nat) :
    Option.Rel (Entry.Alike near) (t.lookupIn scope name) (t'.lookupIn scope name) :=
  h.matched.lookupIn scope

/-- A constant is folded to the same value. -/
theorem Alike.evaluate {c c' : Constant} (hc : c.Alike near c') :
    t.evaluate c = t'.evaluate c' := by
  induction hc with
  | number place scope value => rfl
  | named place scope name =>
    rw [SymbolTable.evaluate, SymbolTable.evaluate, h.scopes]
    have hentry : Option.Rel (Entry.Alike near) (t.lookupIn scope name) (t'.lookupIn scope name) :=
      h.lookupIn scope
    generalize t.lookupIn scope name = found at hentry ⊢
    generalize t'.lookupIn scope name = found' at hentry ⊢
    cases hentry with
    | none => rfl
    | @some e e' hentry =>
      obtain ⟨_, _, _, _, meaning⟩ := e
      obtain ⟨_, _, _, _, meaning'⟩ := e'
      cases hentry.meaning <;> rfl
  | negated place scope operand ih => rw [SymbolTable.evaluate, SymbolTable.evaluate, ih]
  | error place scope => rfl
  | foreign fragment => rfl

/-! ### Declarations -/

theorem Alike.entryAdded (hl : near l l') (hm : m.Alike near m') :
    (t.append name l m).1.Alike near (t'.append name l' m').1 :=
  ⟨rfl, hl, h.current, h.matched.size, hm⟩

/-- What is added at related places leaves tables alike, and so are the entries. -/
theorem Alike.append (hl : near l l') (hm : m.Alike near m') :
    Added near (t.append name l m) (t'.append name l' m') :=
  ⟨h.entryAdded hl hm, alike_iff.mpr (h.matched.append (h.entryAdded hl hm))⟩

theorem Alike.add (hl : near l l') (hm : m.Alike near m') :
    Added near (t.add name l m) (t'.add name l' m') :=
  ⟨h.entryAdded hl hm, alike_iff.mpr (h.matched.add (h.entryAdded hl hm))⟩

theorem Alike.declare (hl : near l l') (hm : m.Alike near m') :
    Option.Rel (Added near) (t.declare name l m) (t'.declare name l' m') := by
  unfold SymbolTable.declare
  rw [h.isDeclared]
  split
  · exact .none
  · exact .some (h.add hl hm)

theorem Alike.declareConstant {c c' : Constant} (hl : near l l') (hc : c.Alike near c')
    {outcome : Option (Entry × SymbolTable)} (hok : t.declareConstant name l c = .ok outcome) :
    ∃ outcome', t'.declareConstant name l' c' = .ok outcome' ∧
      Option.Rel (Added near) outcome outcome' := by
  unfold SymbolTable.declareConstant at hok ⊢
  rw [← h.isDeclared, ← h.evaluate hc]
  split at hok
  · rename_i hdeclared
    cases hok
    exact ⟨none, if_pos hdeclared, .none⟩
  · rename_i hfree
    rw [if_neg hfree]
    cases hvalue : t.evaluate c with
    | error e =>
      rw [hvalue] at hok
      cases hok
    | ok value =>
      rw [hvalue] at hok
      cases hok
      exact ⟨_, rfl, .some (h.add hl (.constant hc value))⟩

/-! ### Scopes -/

omit h in
theorem withLocalScope_alike {e e' : Entry} (he : e.Alike near e') (n : Nat) :
    (withLocalScope n e).Alike near (withLocalScope n e') := by
  obtain ⟨_, _, _, _, meaning⟩ := e
  obtain ⟨_, _, _, _, meaning'⟩ := e'
  obtain ⟨hname, hplace, hscope, hindex, hmeaning⟩ := he
  cases hmeaning with
  | constant tree value => exact ⟨hname, hplace, hscope, hindex, .constant tree value⟩
  | type definition => exact ⟨hname, hplace, hscope, hindex, .type definition⟩
  | variableOf base => exact ⟨hname, hplace, hscope, hindex, .variableOf base⟩
  | procedure localScope => exact ⟨hname, hplace, hscope, hindex, .procedure (some n)⟩

/-- The scope that is opened has the same number. -/
theorem Alike.enter (owner : Nat) : (t.enter owner).1 = (t'.enter owner).1 ∧
    (t.enter owner).2.Alike near (t'.enter owner).2 :=
  ⟨congrArg Array.size h.scopes,
    alike_iff.mpr (h.matched.enter (fun n _ _ he => withLocalScope_alike he n) owner)⟩

theorem Alike.leave {u : SymbolTable} (hleave : t.leave = some u) :
    ∃ u', t'.leave = some u' ∧ u.Alike near u' := by
  have hrel := h.matched.leave
  rw [hleave] at hrel
  cases hleave' : t'.leave with
  | none =>
    rw [hleave'] at hrel
    cases hrel
  | some u' =>
    rw [hleave'] at hrel
    cases hrel with
    | some hu => exact ⟨u', rfl, alike_iff.mpr hu⟩

end

end SymbolTable

end PlZero
