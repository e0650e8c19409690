/-
  PlZero/Proofs/Derivation/Table.lean
  ===================================
  **The table of a derived program, declaration by declaration.**  The scope of a block
  holds just the names that were declared in it so far (`SymbolTable.Holds`), whether they
  were constants, types, variables or procedures.  The scope of a procedure begins without
  names, and once it is closed the scope around it is as it was.
-/
import PlZero.Proofs.Contract.Frame
import PlZero.Proofs.Derivation.Complaints
import PlZero.Proofs.Derivation.Trees
import PlZero.Proofs.Folding.Base

namespace PlZero

namespace SymbolTable

variable {t u v : SymbolTable} {x : String} {l : Location} {m : Meaning} {owner : Nat}
  {names names' : List String}

/-- The innermost open scope holds just the names of a list. -/
def Holds (t : SymbolTable) (names : List String) : Prop :=
  ∃ s, t.scopes[t.current]? = some s ∧ ∀ x, s.declares x = true ↔ x ∈ names

theorem Holds.current_lt (h : t.Holds names) : t.current < t.scopes.size := by
  obtain ⟨s, hs, -⟩ := h
  exact (Array.getElem?_eq_some_iff.mp hs).1

theorem Holds.isDeclared (h : t.Holds names) : t.isDeclared x = true ↔ x ∈ names := by
  obtain ⟨s, hs, hnames⟩ := h
  simp only [SymbolTable.isDeclared, hs, hnames]

theorem Holds.congr (h : t.Holds names) (hnames : ∀ x, x ∈ names ↔ x ∈ names') :
    t.Holds names' := by
  obtain ⟨s, hs, hholds⟩ := h
  exact ⟨s, hs, fun x => (hholds x).trans (hnames x)⟩

theorem Holds.append (h : t.Holds names) : (t.append x l m).2.Holds names := h

theorem Holds.add (h : t.Holds names) : (t.add x l m).2.Holds (x :: names) := by
  obtain ⟨s, hs, hnames⟩ := h
  refine ⟨{ s with declared := (x, t.entries.size) :: s.declared }, ?_, ?_⟩
  · show (t.scopes.modify t.current _)[t.current]? = _
    rw [Array.getElem?_modify, if_pos rfl, hs]
    rfl
  · intro y
    rw [List.mem_cons, ← hnames y]
    simp only [Scope.declares, Scope.find?, List.lookup_cons]
    by_cases hy : y = x
    · simp [hy]
    · simp [hy, beq_false_of_ne hy]

/-- A name that is taken is among the names already. -/
theorem Holds.cons (h : t.Holds names) (hx : x ∈ names) : t.Holds (x :: names) := by
  refine h.congr fun y => ?_
  rw [List.mem_cons]
  constructor
  · exact .inr
  · rintro (rfl | hy)
    · exact hx
    · exact hy

/-- The scope of a procedure begins without names. -/
theorem enter_holds (t : SymbolTable) (owner : Nat) : (t.enter owner).2.Holds [] := by
  refine ⟨_, Array.getElem?_push_size, fun x => ?_⟩
  simp [Scope.declares, Scope.find?]

/-- Once the scope of a procedure is closed, the scope around it is as it was. -/
theorem Holds.leave (h : t.Holds names) (hk : (t.enter owner).2.Kept 0 u)
    (hleave : u.leave = some v) : v.Holds names := by
  have hlt := h.current_lt
  obtain ⟨s, hs, hnames⟩ := h
  have henclosing : u.enclosing = t.current :: t.enclosing := hk.enclosing
  simp only [SymbolTable.leave, henclosing, Option.some.injEq] at hleave
  obtain rfl := hleave
  exact ⟨s, (hk.scopes_inside hlt).trans hs, hnames⟩

/-! ### Declaring one name -/

open PlZero.Derivation (outcomeOf)

theorem declare_kept : t.Kept 0 (outcomeOf t (t.declare x l m)) := by
  unfold declare
  split
  · exact .refl 0 t
  · exact add_kept (Nat.zero_le _) x l m

theorem Holds.declare (h : t.Holds names) : (outcomeOf t (t.declare x l m)).Holds (x :: names) := by
  unfold SymbolTable.declare
  split
  · rename_i hx
    exact h.cons (h.isDeclared.mp hx)
  · exact h.add

end SymbolTable

namespace Derivation

variable {T : SymbolTable} {V : Trees} {names : List String} {sign : Kind} {β : Type}

/-- The definition of a constant declares its name with the value that is folded. -/
theorem addConstantIn_eq (V : Trees) (hT : T.current < T.scopes.size)
    (d : Definition .equals Constant) :
    ∃ value, T.declareConstant (nameOf d.name) d.name.val.location
        (V.constant T.current d.meaning) =
          .ok (T.declare (nameOf d.name) d.name.val.location
            (.constant (V.constant T.current d.meaning) value)) ∧
      addConstantIn V T d = outcomeOf T (T.declare (nameOf d.name) d.name.val.location
        (.constant (V.constant T.current d.meaning) value)) := by
  obtain ⟨value, hok⟩ := SymbolTable.declareConstant_inScope (V.inScope T.current d.meaning) hT
    (nameOf d.name) d.name.val.location
  refine ⟨value, hok, ?_⟩
  unfold addConstantIn
  rw [hok]

/-- In any table the name of a constant is declared, or nothing happens. -/
theorem addConstantIn_cases (V : Trees) (T : SymbolTable) (d : Definition .equals Constant) :
    addConstantIn V T d = T ∨ ∃ value, addConstantIn V T d =
      outcomeOf T (T.declare (nameOf d.name) d.name.val.location
        (.constant (V.constant T.current d.meaning) value)) := by
  unfold addConstantIn SymbolTable.declareConstant SymbolTable.declare nameOf
  cases T.isDeclared d.name.val.payload.name with
  | true => exact .inl rfl
  | false =>
    cases T.evaluate (V.constant T.current d.meaning) with
    | error why => exact .inl rfl
    | ok value => exact .inr ⟨value, rfl⟩

theorem addConstantIn_holds (h : T.Holds names) (d : Definition .equals Constant) :
    (addConstantIn V T d).Holds (nameOf d.name :: names) := by
  obtain ⟨value, -, heq⟩ := addConstantIn_eq V h.current_lt d
  rw [heq]
  exact h.declare

theorem addConstantIn_kept (V : Trees) (T : SymbolTable) (d : Definition .equals Constant) :
    T.Kept 0 (addConstantIn V T d) := by
  rcases addConstantIn_cases V T d with heq | ⟨value, heq⟩
  · rw [heq]
    exact .refl 0 T
  · rw [heq]
    exact SymbolTable.declare_kept

theorem addTypeIn_holds (h : T.Holds names) (d : Definition .equals TypeForm) :
    (addTypeIn V T d).Holds (nameOf d.name :: names) :=
  h.declare

theorem addVariable_holds (h : T.Holds names) (d : Definition .colon (TokenOf .identifier)) :
    (addVariable T d).Holds (nameOf d.name :: names) :=
  h.declare

/-- Whether or not the name of a procedure was free, it is taken afterwards. -/
theorem addProcedure_holds (h : T.Holds names) (name : Token) :
    (addProcedure T name).2.Holds (nameOf name :: names) := by
  unfold addProcedure SymbolTable.declareProcedure SymbolTable.declare
  split
  · rename_i hx
    exact h.append.cons (h.isDeclared.mp hx)
  · exact h.add

theorem addProcedure_kept (T : SymbolTable) (name : Token) : T.Kept 0 (addProcedure T name).2 := by
  unfold addProcedure SymbolTable.declareProcedure SymbolTable.declare
  split
  · exact SymbolTable.append_kept (Nat.zero_le _) _ _ _
  · exact SymbolTable.add_kept (Nat.zero_le _) _ _ _

/-! ### Declaring several names -/

theorem foldl_kept {add : SymbolTable → Definition sign β → SymbolTable}
    (hadd : ∀ (T : SymbolTable) d, T.Kept 0 (add T d)) (T : SymbolTable)
    (ds : List (Definition sign β)) : T.Kept 0 (ds.foldl add T) := by
  induction ds generalizing T with
  | nil => exact .refl 0 T
  | cons d more ih => exact (hadd T d).trans (ih _)

theorem foldl_holds {add : SymbolTable → Definition sign β → SymbolTable}
    (hadd : ∀ {T names}, T.Holds names → ∀ d, (add T d).Holds (nameOf d.name :: names))
    (h : T.Holds names) (ds : List (Definition sign β)) :
    (ds.foldl add T).Holds (namesAfter names ds) := by
  induction ds generalizing T names with
  | nil => exact h
  | cons d more ih => exact ih (hadd h d)

mutual

theorem Block.tableIn_kept : ∀ (T : SymbolTable) (c : Block), T.Kept 0 (c.tableIn V T)
  | T, .mk declarations _ => Declaration.tableAllIn_kept T declarations

theorem Declaration.tableIn_kept : ∀ (T : SymbolTable) (d : Declaration),
    T.Kept 0 (d.tableIn V T)
  | T, .constantList d => foldl_kept (addConstantIn_kept V) T d.all
  | T, .typeList d => foldl_kept (fun _ _ => SymbolTable.declare_kept) T d.all
  | T, .variableList d => foldl_kept (fun _ _ => SymbolTable.declare_kept) T d.all
  | T, .procedure _ name _ _ _ block _ => by
    obtain ⟨v, hleave, -, hk⟩ := SymbolTable.Kept.inside (Nat.zero_le _)
      (block.tableIn_kept ((addProcedure T name).2.enter (addProcedure T name).1.index).2)
    rw [Declaration.tableIn, hleave]
    exact (addProcedure_kept T name).trans hk

theorem Declaration.tableAllIn_kept : ∀ (T : SymbolTable) (ds : List Declaration),
    T.Kept 0 (Declaration.tableAllIn V T ds)
  | T, [] => .refl 0 T
  | T, d :: more => (d.tableIn_kept T).trans (Declaration.tableAllIn_kept (d.tableIn V T) more)

end

/-- What is left of the scope of a procedure once its block was read. -/
theorem Block.tableIn_leave (V : Trees) (T : SymbolTable) (owner : Nat) (c : Block) :
    ∃ v, (c.tableIn V (T.enter owner).2).leave = some v ∧
      v.entries = (c.tableIn V (T.enter owner).2).entries ∧
      ∀ names, T.Holds names → v.Holds names := by
  obtain ⟨v, hleave, hentries, -⟩ := SymbolTable.Kept.inside (Nat.zero_le owner)
    (c.tableIn_kept (V := V) (T.enter owner).2)
  exact ⟨v, hleave, hentries, fun _ h => h.leave (c.tableIn_kept _) hleave⟩

/-- The names of a block, declaration by declaration. -/
theorem Declaration.tableIn_holds (h : T.Holds names) (d : Declaration) :
    (d.tableIn V T).Holds (d.names names) := by
  cases d with
  | constantList d => exact foldl_holds addConstantIn_holds h d.all
  | typeList d => exact foldl_holds addTypeIn_holds h d.all
  | variableList d => exact foldl_holds addVariable_holds h d.all
  | procedure _ name _ _ _ block _ =>
    obtain ⟨v, hleave, -, hholds⟩ :=
      block.tableIn_leave V (addProcedure T name).2 (addProcedure T name).1.index
    rw [Declaration.tableIn, hleave]
    exact hholds _ (addProcedure_holds h name)

/-! ### Programs as they are derived -/

theorem addConstant_cases (T : SymbolTable) (d : Definition .equals Constant) :
    addConstant T d = T ∨ ∃ value, addConstant T d =
      outcomeOf T (T.declare (nameOf d.name) d.name.val.location
        (.constant (d.meaning.tree T.current) value)) :=
  addConstantIn_cases .asDerived T d

theorem Block.table_leave (T : SymbolTable) (owner : Nat) (c : Block) :
    ∃ v, (c.table (T.enter owner).2).leave = some v ∧
      v.entries = (c.table (T.enter owner).2).entries ∧
      ∀ names, T.Holds names → v.Holds names := by
  rw [← c.tableIn_asDerived]
  exact c.tableIn_leave .asDerived T owner

end Derivation

end PlZero
