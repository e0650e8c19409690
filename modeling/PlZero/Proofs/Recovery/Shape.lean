/-
  PlZero/Proofs/Recovery/Shape.lean
  =================================
  **The shapes of trees and tables.**  The shape of a tree is the tree with its names, values,
  places and numbers of entries left blank; what it is built of, its operators and the numbers
  of its scopes stay.  The frame of a symbol table is how its scopes lie in each other, and
  which of them are open, without the names that they hold.  Entries are not part of it, so
  that declaring a name leaves the frame as it is.
-/
import PlZero.Proofs.Scope.Registered

namespace PlZero

/-! ### Expressions -/

/-- An expression without names, values and places. -/
def Expression.shape : Expression → Expression
  | .error _ => .error .unknown
  | .number _ _ => .number .unknown 0
  | .identifier _ _ scope => .identifier .unknown "" scope
  | .read _ => .read .unknown
  | .unary _ op operand => .unary .unknown op operand.shape
  | .binary _ op left right => .binary .unknown op left.shape right.shape

/-! ### Statements -/

mutual

/-- A statement without names, values and places. -/
def Statement.shape : Statement → Statement
  | .error _ => .error .unknown
  | .assign _ targets values =>
    .assign .unknown (targets.map Expression.shape) (values.map Expression.shape)
  | .repeated _ condition body => .repeated .unknown condition.shape body.shape
  | .choice _ condition thenBranch elseBranch =>
    .choice .unknown condition.shape thenBranch.shape elseBranch.shape
  | .write _ value => .write .unknown value.shape
  | .call _ _ scope => .call .unknown "" scope
  | .skip _ => .skip .unknown
  | .list _ statements => .list .unknown (Statement.shapes statements)
  | .guarded _ branches => .guarded .unknown (Branch.shapes branches)

/-- The shapes of statements. -/
def Statement.shapes : List Statement → List Statement
  | [] => []
  | s :: ss => s.shape :: Statement.shapes ss

/-- A branch without names, values and places. -/
def Branch.shape : Branch → Branch
  | .mk _ condition body exits => .mk .unknown condition.shape body.shape exits

/-- The shapes of branches. -/
def Branch.shapes : List Branch → List Branch
  | [] => []
  | b :: bs => b.shape :: Branch.shapes bs

end

theorem Statement.shapes_eq (ss : List Statement) :
    Statement.shapes ss = ss.map Statement.shape := by
  induction ss with
  | nil => rfl
  | cons s ss ih => rw [Statement.shapes, ih, List.map_cons]

theorem Branch.shapes_eq (bs : List Branch) : Branch.shapes bs = bs.map Branch.shape := by
  induction bs with
  | nil => rfl
  | cons b bs ih => rw [Branch.shapes, ih, List.map_cons]

/-! ### Blocks and programs -/

mutual

/-- A block without names, values, places and numbers of entries. -/
def Block.shape : Block → Block
  | .mk _ scope procedures body => .mk .unknown scope (Procedure.shapes procedures) body.shape

/-- A procedure without names, values, places and numbers of entries. -/
def Procedure.shape : Procedure → Procedure
  | .mk _ _ _ block => .mk .unknown "" 0 block.shape

/-- The shapes of procedures. -/
def Procedure.shapes : List Procedure → List Procedure
  | [] => []
  | p :: ps => p.shape :: Procedure.shapes ps

end

theorem Procedure.shapes_eq (ps : List Procedure) :
    Procedure.shapes ps = ps.map Procedure.shape := by
  induction ps with
  | nil => rfl
  | cons p ps ih => rw [Procedure.shapes, ih, List.map_cons]

/-- A program without names, values, places and numbers of entries. -/
def Program.shape (p : Program) : Program := ⟨.unknown, p.block.shape⟩

/-! ### Tables -/

/-- A scope without its names, and without the number of the entry that owns it. -/
def Scope.frame (s : Scope) : Scope :=
  { s with owner := s.owner.map fun _ => 0, declared := [] }

namespace SymbolTable

variable {t t' u u' : SymbolTable} {name : String} {l : Location} {m : Meaning}

/-- A table without its names and entries. -/
def frame (t : SymbolTable) : SymbolTable :=
  { t with scopes := t.scopes.map Scope.frame, entries := #[] }

theorem frame_append : (t.append name l m).2.frame = t.frame := rfl

theorem frame_add : (t.add name l m).2.frame = t.frame := by
  have hscopes : (t.scopes.modify t.current fun s =>
      { s with declared := (name, t.entries.size) :: s.declared }).map Scope.frame =
        t.scopes.map Scope.frame := by
    apply Array.ext_getElem?
    intro i
    simp only [Array.getElem?_map, Array.getElem?_modify]
    split
    · rw [Option.map_map]
      rfl
    · rfl
  unfold frame add
  rw [hscopes]

/-- A name that is declared leaves the frame as it is. -/
theorem frame_declare : ∀ e u, t.declare name l m = some (e, u) → u.frame = t.frame := by
  intro e u hu
  cases declare_some hu
  exact frame_add

theorem frame_declareConstant {tree : Constant} {outcome : Option (Entry × SymbolTable)}
    (h : t.declareConstant name l tree = .ok outcome) :
    ∀ e u, outcome = some (e, u) → u.frame = t.frame := by
  rintro e u rfl
  obtain ⟨value, -, hadded⟩ := declareConstant_added h
  cases hadded
  exact frame_add

/-! Tables with one frame have the same scopes open, and open further ones alike. -/

theorem current_of_frame (h : t'.frame = t.frame) : t'.current = t.current := by
  have hcurrent : t'.frame.current = t.frame.current := by rw [h]
  exact hcurrent

theorem enclosing_of_frame (h : t'.frame = t.frame) : t'.enclosing = t.enclosing := by
  have henclosing : t'.frame.enclosing = t.frame.enclosing := by rw [h]
  exact henclosing

theorem scopes_of_frame (h : t'.frame = t.frame) :
    t'.scopes.map Scope.frame = t.scopes.map Scope.frame :=
  congrArg SymbolTable.scopes h

theorem size_of_frame (h : t'.frame = t.frame) : t'.scopes.size = t.scopes.size := by
  have hsize := congrArg Array.size (scopes_of_frame h)
  simpa using hsize

theorem level_of_frame (h : t'.frame = t.frame) (i : Nat) :
    t'.scopes[i]?.map Scope.level = t.scopes[i]?.map Scope.level := by
  have hscope : (t'.scopes.map Scope.frame)[i]? = (t.scopes.map Scope.frame)[i]? := by
    rw [scopes_of_frame h]
  have hlevel := congrArg (Option.map Scope.level) hscope
  simpa [Array.getElem?_map, Function.comp_def, Scope.frame] using hlevel

theorem enter_index (h : t'.frame = t.frame) (owner owner' : Nat) :
    (t'.enter owner').1 = (t.enter owner).1 := size_of_frame h

theorem frame_enter (h : t'.frame = t.frame) (owner owner' : Nat) :
    (t'.enter owner').2.frame = (t.enter owner).2.frame := by
  have hcurrent := current_of_frame h
  have hlevel := level_of_frame h t.current
  unfold frame enter
  cases hs : t.scopes[t.current]? with
  | none =>
    rw [hs, Option.map_none, Option.map_eq_none_iff] at hlevel
    simp only [Array.map_push, scopes_of_frame h, size_of_frame h, hcurrent, enclosing_of_frame h,
      hlevel]
    rfl
  | some s =>
    rw [hs, Option.map_some] at hlevel
    obtain ⟨s', hs', hlevel⟩ := Option.map_eq_some_iff.mp hlevel
    simp only [Array.map_push, scopes_of_frame h, size_of_frame h, hcurrent, enclosing_of_frame h,
      hs', hlevel]
    rfl

/-- Tables with one frame close a scope alike, if there is one to close. -/
theorem frame_leave (h : t'.frame = t.frame) (hu : t.leave = some u) (hu' : t'.leave = some u') :
    u'.frame = u.frame := by
  have henclosing := enclosing_of_frame h
  unfold leave at hu hu'
  rw [henclosing] at hu'
  cases hrest : t.enclosing with
  | nil =>
    rw [hrest] at hu
    cases hu
  | cons outer rest =>
    rw [hrest] at hu hu'
    cases hu
    cases hu'
    unfold frame
    rw [scopes_of_frame h]

end SymbolTable

end PlZero
