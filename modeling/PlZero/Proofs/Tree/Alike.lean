/-
  PlZero/Proofs/Tree/Alike.lean
  =============================
  **Trees that are alike up to places.**  Two trees are alike if they are built in the same way
  of the same names, values, operators and numbers, and the places at which their parts stand
  are related by `near`.  With a relation that always holds this is equality up to places; with
  equality it is equality.
-/
import PlZero.Tree.Constant
import PlZero.Tree.Program
import Mathlib.Data.List.Forall2

namespace PlZero

variable {near : Location → Location → Prop}

/-! ### Expressions -/

/-- Expressions that are alike up to places. -/
inductive Expression.Alike (near : Location → Location → Prop) : Expression → Expression → Prop
  | error {l l' : Location} (place : near l l') : Alike near (.error l) (.error l')
  | number {l l' : Location} (place : near l l') (value : Int) :
      Alike near (.number l value) (.number l' value)
  | identifier {l l' : Location} (place : near l l') (name : String) (scope : Nat) :
      Alike near (.identifier l name scope) (.identifier l' name scope)
  | read {l l' : Location} (place : near l l') : Alike near (.read l) (.read l')
  | unary {l l' : Location} (place : near l l') (op : Operator) {e e' : Expression}
      (operand : Alike near e e') : Alike near (.unary l op e) (.unary l' op e')
  | binary {l l' : Location} (place : near l l') (op : Operator) {e e' f f' : Expression}
      (left : Alike near e e') (right : Alike near f f') :
      Alike near (.binary l op e f) (.binary l' op e' f')

instance [Std.Refl near] : Std.Refl (Expression.Alike near) where
  refl e := by
    induction e with
    | error l => exact .error (Std.Refl.refl l)
    | number l value => exact .number (Std.Refl.refl l) value
    | identifier l name scope => exact .identifier (Std.Refl.refl l) name scope
    | read l => exact .read (Std.Refl.refl l)
    | unary l op e ih => exact .unary (Std.Refl.refl l) op ih
    | binary l op e f ih ih' => exact .binary (Std.Refl.refl l) op ih ih'

instance forall₂Refl {α : Type} {R : α → α → Prop} [Std.Refl R] : Std.Refl (List.Forall₂ R) where
  refl _ := List.forall₂_same.mpr fun x _ => Std.Refl.refl x

/-! ### Statements -/

mutual

/-- Statements that are alike up to places. -/
inductive Statement.Alike (near : Location → Location → Prop) : Statement → Statement → Prop
  | error {l l' : Location} (place : near l l') : Statement.Alike near (.error l) (.error l')
  | assign {l l' : Location} (place : near l l') {ts ts' vs vs' : List Expression}
      (targets : List.Forall₂ (Expression.Alike near) ts ts')
      (values : List.Forall₂ (Expression.Alike near) vs vs') :
      Statement.Alike near (.assign l ts vs) (.assign l' ts' vs')
  | repeated {l l' : Location} (place : near l l') {e e' : Expression}
      (condition : Expression.Alike near e e') {s s' : Statement}
      (body : Statement.Alike near s s') :
      Statement.Alike near (.repeated l e s) (.repeated l' e' s')
  | choice {l l' : Location} (place : near l l') {e e' : Expression}
      (condition : Expression.Alike near e e') {s s' t t' : Statement}
      (thenBranch : Statement.Alike near s s') (elseBranch : Statement.Alike near t t') :
      Statement.Alike near (.choice l e s t) (.choice l' e' s' t')
  | write {l l' : Location} (place : near l l') {e e' : Expression}
      (value : Expression.Alike near e e') : Statement.Alike near (.write l e) (.write l' e')
  | call {l l' : Location} (place : near l l') (name : String) (scope : Nat) :
      Statement.Alike near (.call l name scope) (.call l' name scope)
  | skip {l l' : Location} (place : near l l') : Statement.Alike near (.skip l) (.skip l')
  | list {l l' : Location} (place : near l l') {ss ss' : List Statement}
      (statements : List.Forall₂ (Statement.Alike near) ss ss') :
      Statement.Alike near (.list l ss) (.list l' ss')
  | guarded {l l' : Location} (place : near l l') {bs bs' : List Branch}
      (branches : List.Forall₂ (Branch.Alike near) bs bs') :
      Statement.Alike near (.guarded l bs) (.guarded l' bs')

/-- Branches that are alike up to places. -/
inductive Branch.Alike (near : Location → Location → Prop) : Branch → Branch → Prop
  | mk {l l' : Location} (place : near l l') {e e' : Expression}
      (condition : Expression.Alike near e e') {s s' : Statement}
      (body : Statement.Alike near s s') (exits : Bool) :
      Branch.Alike near (.mk l e s exits) (.mk l' e' s' exits)

end

/-- Statements that are alike stand at related places. -/
theorem Statement.Alike.place {s s' : Statement} (h : Statement.Alike near s s') :
    near s.location s'.location := by
  cases h <;> assumption

mutual

theorem Statement.alike_refl [Std.Refl near] : ∀ s : Statement, Statement.Alike near s s
  | .error l => .error (Std.Refl.refl l)
  | .assign l ts vs => .assign (Std.Refl.refl l) (Std.Refl.refl ts) (Std.Refl.refl vs)
  | .repeated l e s => .repeated (Std.Refl.refl l) (Std.Refl.refl e) (Statement.alike_refl s)
  | .choice l e s t =>
    .choice (Std.Refl.refl l) (Std.Refl.refl e) (Statement.alike_refl s) (Statement.alike_refl t)
  | .write l e => .write (Std.Refl.refl l) (Std.Refl.refl e)
  | .call l name scope => .call (Std.Refl.refl l) name scope
  | .skip l => .skip (Std.Refl.refl l)
  | .list l ss => .list (Std.Refl.refl l) (Statement.alike_all ss)
  | .guarded l bs => .guarded (Std.Refl.refl l) (Branch.alike_all bs)

theorem Statement.alike_all [Std.Refl near] :
    ∀ ss : List Statement, List.Forall₂ (Statement.Alike near) ss ss
  | [] => .nil
  | s :: ss => .cons (Statement.alike_refl s) (Statement.alike_all ss)

theorem Branch.alike_refl [Std.Refl near] : ∀ b : Branch, Branch.Alike near b b
  | .mk l e s exits =>
    .mk (Std.Refl.refl l) (Std.Refl.refl e) (Statement.alike_refl s) exits

theorem Branch.alike_all [Std.Refl near] :
    ∀ bs : List Branch, List.Forall₂ (Branch.Alike near) bs bs
  | [] => .nil
  | b :: bs => .cons (Branch.alike_refl b) (Branch.alike_all bs)

end

instance [Std.Refl near] : Std.Refl (Statement.Alike near) := ⟨Statement.alike_refl⟩

instance [Std.Refl near] : Std.Refl (Branch.Alike near) := ⟨Branch.alike_refl⟩

/-! ### Blocks and programs -/

mutual

/-- Blocks that are alike up to places. -/
inductive Block.Alike (near : Location → Location → Prop) : Block → Block → Prop
  | mk {l l' : Location} (place : near l l') (scope : Nat) {ps ps' : List Procedure}
      (procedures : List.Forall₂ (Procedure.Alike near) ps ps') {s s' : Statement}
      (body : Statement.Alike near s s') :
      Block.Alike near (.mk l scope ps s) (.mk l' scope ps' s')

/-- Procedures that are alike up to places. -/
inductive Procedure.Alike (near : Location → Location → Prop) : Procedure → Procedure → Prop
  | mk {l l' : Location} (place : near l l') (name : String) (entry : Nat) {b b' : Block}
      (block : Block.Alike near b b') :
      Procedure.Alike near (.mk l name entry b) (.mk l' name entry b')

end

mutual

theorem Block.alike_refl [Std.Refl near] : ∀ b : Block, Block.Alike near b b
  | .mk l scope ps s =>
    .mk (Std.Refl.refl l) scope (Procedure.alike_all ps) (Std.Refl.refl s)

theorem Procedure.alike_refl [Std.Refl near] : ∀ p : Procedure, Procedure.Alike near p p
  | .mk l name entry b => .mk (Std.Refl.refl l) name entry (Block.alike_refl b)

theorem Procedure.alike_all [Std.Refl near] :
    ∀ ps : List Procedure, List.Forall₂ (Procedure.Alike near) ps ps
  | [] => .nil
  | p :: ps => .cons (Procedure.alike_refl p) (Procedure.alike_all ps)

end

instance [Std.Refl near] : Std.Refl (Block.Alike near) := ⟨Block.alike_refl⟩

instance [Std.Refl near] : Std.Refl (Procedure.Alike near) := ⟨Procedure.alike_refl⟩

theorem Block.Alike.place {b b' : Block} (h : Block.Alike near b b') :
    near b.location b'.location := by
  cases h
  assumption

theorem Block.Alike.body {b b' : Block} (h : Block.Alike near b b') :
    b.body.Alike near b'.body := by
  cases h
  assumption

/-- Programs that are alike up to places. -/
structure Program.Alike (near : Location → Location → Prop) (p p' : Program) : Prop where
  place : near p.location p'.location
  block : p.block.Alike near p'.block

instance [Std.Refl near] : Std.Refl (Program.Alike near) :=
  ⟨fun p => ⟨Std.Refl.refl p.location, Std.Refl.refl p.block⟩⟩

/-! ### Constants and types -/

/-- Constants that are alike up to places. -/
inductive Constant.Alike (near : Location → Location → Prop) : Constant → Constant → Prop
  | number {l l' : Location} (place : near l l') (scope : Nat) (value : Int) :
      Alike near (.number l scope value) (.number l' scope value)
  | named {l l' : Location} (place : near l l') (scope : Nat) (name : String) :
      Alike near (.named l scope name) (.named l' scope name)
  | negated {l l' : Location} (place : near l l') (scope : Nat) {c c' : Constant}
      (operand : Alike near c c') : Alike near (.negated l scope c) (.negated l' scope c')
  | error {l l' : Location} (place : near l l') (scope : Nat) :
      Alike near (.error l scope) (.error l' scope)
  | foreign (fragment : Fragment) : Alike near (.foreign fragment) (.foreign fragment)

instance [Std.Refl near] : Std.Refl (Constant.Alike near) where
  refl c := by
    induction c with
    | number l scope value => exact .number (Std.Refl.refl l) scope value
    | named l scope name => exact .named (Std.Refl.refl l) scope name
    | negated l scope c ih => exact .negated (Std.Refl.refl l) scope ih
    | error l scope => exact .error (Std.Refl.refl l) scope
    | foreign fragment => exact .foreign fragment

/-- Types that are alike up to places. -/
inductive TypeExpr.Alike (near : Location → Location → Prop) : TypeExpr → TypeExpr → Prop
  | scalar (name : String) : Alike near (.scalar name) (.scalar name)
  | subrange {c c' d d' : Constant} (lower : c.Alike near c') (upper : d.Alike near d') :
      Alike near (.subrange c d) (.subrange c' d')
  | named (name : String) (scope : Nat) {l l' : Location} (place : near l l') :
      Alike near (.named name scope l) (.named name scope l')
  | reference {t t' : TypeExpr} (base : Alike near t t') :
      Alike near (.reference t) (.reference t')
  | error : Alike near .error .error
  | foreign (fragment : Fragment) : Alike near (.foreign fragment) (.foreign fragment)

instance [Std.Refl near] : Std.Refl (TypeExpr.Alike near) where
  refl t := by
    induction t with
    | scalar name => exact .scalar name
    | subrange lower upper => exact .subrange (Std.Refl.refl lower) (Std.Refl.refl upper)
    | named name scope l => exact .named name scope (Std.Refl.refl l)
    | reference base ih => exact .reference ih
    | error => exact .error
    | foreign fragment => exact .foreign fragment

end PlZero
