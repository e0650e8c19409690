/-
  PlZero/Proofs/Derivation/Respelled.lean
  =======================================
  **A program with other constants.**  Its constants may be spelled differently (`spelled f`
  has the constant `f k` wherever `k` is derived), or be read with a placeholder where they have
  too many signs (`clipped`).  Either way its tree is the one that is derived
  (`Block.programIn_eq`).  If `f` replaces just constants with too many signs, the two differ in
  placeholders alone (`Clipped`).
-/
import PlZero.Proofs.Derivation.Kinds
import PlZero.Proofs.Derivation.Overdeep
import PlZero.Proofs.Derivation.Redrawn
import PlZero.Proofs.Folding.Base

namespace PlZero.Derivation

open PlZero.Grammar (maxNesting)

/-! ### Operands as they are derived, except for constants -/

/-- Constants have other trees than those that are derived. -/
def Trees.redrawn (constant : Nat → Constant → PlZero.Constant)
    (inScope : ∀ scope c, (constant scope c).InScope scope) : Trees :=
  { Trees.asDerived with constant, inScope }

/-- Constants are written and reported in another way than they are derived. -/
def Rendering.redrawn (constant : Rendered Constant) : Rendering :=
  { Rendering.asDerived with constant }

/-- The tree of a program does not depend on those of its constants. -/
theorem Block.programIn_eq (c : Block) (constant : Nat → Constant → PlZero.Constant)
    (inScope : ∀ scope c, (constant scope c).InScope scope) :
    c.programIn (.redrawn constant inScope) = c.program := by
  have hV : (Trees.redrawn constant inScope).Redrawn (fun _ _ _ => True) .asDerived :=
    ⟨rfl, rfl, fun _ _ => trivial⟩
  rw [c.programIn_redrawn hV, c.programIn_asDerived]

/-! ### Spellings -/

variable (f : Constant → Constant)

/-- Constants are spelled differently. -/
def Trees.spelled : Trees :=
  .redrawn (fun scope c => (f c).tree scope) fun scope c => (f c).tree_inScope scope

def Rendering.spelled : Rendering := .redrawn ⟨fun c => (f c).tokens, fun _ => []⟩

/-- The tokens of a program with its constants spelled differently. -/
def Block.spelled (c : Block) : List Token := (Rendering.spelled f).tokens c.parts

theorem Block.reports_spelled (c : Block) :
    (Rendering.spelled f).reports c.parts = c.complaints := by
  rw [← c.addUp.reports]
  refine List.flatMap_congr fun p _ => ?_
  cases p <;> rfl

theorem Block.spelled_ne_end (c : Block) : ∀ t ∈ c.spelled f, t.kind ≠ .endOfFile := by
  have hderived := c.ordinary.ne_end
  rw [← c.addUp.tokens] at hderived
  intro t ht
  obtain ⟨p, hp, ht⟩ := List.mem_flatMap.mp ht
  cases p with
  | constant k =>
    rintro hend
    exact (f k).ordinary t ht (by rw [hend]; decide)
  | _ => exact hderived t (List.mem_flatMap.mpr ⟨_, hp, ht⟩)

/-! ### Placeholders for constants -/

/-- What is read as a constant, with and without a limit: the same tree, or a placeholder behind
    as many signs as may nest and the tree of another spelling. -/
inductive Clipped (scope : Nat) : PlZero.Constant → PlZero.Constant → Prop
  | same (tree : PlZero.Constant) : Clipped scope tree tree
  | lost (k : Constant) (h : maxNesting < k.nesting) :
      Clipped scope (k.treeAt 0 scope) ((f k).tree scope)

/-- A constant with too many signs is read as a placeholder behind those that may nest. -/
theorem Constant.treeAt_base {n : Nat} (scope : Nat) {c : Constant}
    (h : maxNesting < n + c.nesting) (hn : n ≤ maxNesting) :
    ∃ l, (c.treeAt n scope).base = .error l scope := by
  induction c generalizing n with
  | number t => exact absurd h (by simp [Constant.nesting]; omega)
  | name t => exact absurd h (by simp [Constant.nesting]; omega)
  | negated sign operand ih =>
    rw [Constant.nesting] at h
    rw [Constant.treeAt]
    split
    · exact ih (by omega) (by omega)
    · exact ⟨_, rfl⟩

theorem Clipped.placeholder {scope : Nat} {c c' : PlZero.Constant} (h : Clipped f scope c c') :
    c = c' ∨ ∃ l, c.base = .error l scope := by
  cases h with
  | same => exact .inl rfl
  | lost k h => exact .inr (Constant.treeAt_base scope (by omega) (Nat.zero_le _))

/-- Constants have a placeholder where they have too many signs. -/
def Trees.clipped : Trees := .redrawn Trees.limited.constant Trees.limited.inScope

def Rendering.clipped : Rendering := .redrawn (Rendering.limited .same).constant

theorem Block.tokens_clipped (c : Block) : Rendering.clipped.tokens c.parts = c.tokens := by
  rw [← c.addUp.tokens]
  refine List.flatMap_congr fun p _ => ?_
  cases p <;> rfl

variable {f}

/-- If just constants with too many signs are replaced, trees differ in placeholders alone. -/
theorem Trees.clipped_redrawn (hsame : ∀ k, k.nesting ≤ maxNesting → f k = k) :
    Trees.clipped.Redrawn (Clipped f) (.spelled f) := by
  refine ⟨rfl, rfl, fun scope k => ?_⟩
  by_cases hk : k.nesting ≤ maxNesting
  · have hwithin : k.treeAt 0 scope = k.tree scope := (Constant.within scope (by omega)).2
    show Clipped f scope (k.treeAt 0 scope) ((f k).tree scope)
    rw [hwithin, hsame k hk]
    exact .same _
  · exact .lost k (Nat.lt_of_not_le hk)

/-! ### Programs whose conditions are within the limit -/

section

variable {c : Block} (hconditions : ∀ x ∈ c.conditions, x.nesting ≤ maxNesting)
include hconditions

/-- Only signs nest too deeply: of a constant with too many the first that is one too many. -/
theorem Block.overdeep_part {p : Part} (hp : p ∈ c.parts) :
    p.overdeep = (p.constant?.bind fun k => k.signs[maxNesting]?).toList := by
  have hwithin : ∀ x, p.condition? = some x → 0 + x.nesting ≤ maxNesting := fun x hx => by
    simpa using hconditions x (List.mem_filterMap.mpr ⟨p, hp, hx⟩)
  cases p with
  | condition x => exact (x.within 0 (hwithin x rfl)).1
  | expression x => exact (x.within 0 (hwithin (.plain x) rfl)).1
  | constant k => exact k.overdeep_eq (Nat.zero_le _)
  | _ => rfl

theorem Block.overdeep_signs :
    c.overdeep = c.constants.filterMap fun k => k.signs[maxNesting]? := by
  rw [Block.overdeep, Block.constants, List.filterMap_filterMap, List.filterMap_eq_flatMap_toList]
  exact List.flatMap_congr fun p hp => Block.overdeep_part hconditions hp

theorem Block.reports_clipped :
    Rendering.clipped.reports c.parts = (Rendering.limited .same).reports c.parts := by
  refine List.flatMap_congr fun p hp => ?_
  have hdeep := Block.overdeep_part hconditions hp
  cases p with
  | condition x => exact (congrArg (List.map tooDeepAt) hdeep).symm
  | expression x => exact (congrArg (List.map tooDeepAt) hdeep).symm
  | _ => rfl

end

end PlZero.Derivation
