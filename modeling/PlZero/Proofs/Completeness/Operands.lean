/-
  PlZero/Proofs/Completeness/Operands.lean
  ========================================
  **Operands that are read as they are rendered.**  What the rules of statements and
  declarations need to know about the operands of a program is that each of them is read as
  its tree, with the reports of its rendering, wherever it stands (`PartRead`).  So these
  rules do not depend on what is reported about operands.

  Conditions and expressions are read as in the rendering `limited`, and so are constants
  unless a name stands behind too many signs.  Where nothing nests too deeply, this rendering
  is the one of the derivation.
-/
import PlZero.Proofs.Completeness.Constants
import PlZero.Proofs.Completeness.Expressions

namespace PlZero.Grammar

open Reader

open PlZero.Derivation (Part Rendered Rendering Trees partsBehind most)

/-- A reader reads an operand as it is rendered, whatever its caller waits for and stands
    behind it, as long as `P` holds of these. -/
def OperandRead {γ τ : Type} (E : Abort → Stream → Prop) (read : KindSet → Reader τ)
    (P : KindSet → Kind → Prop) (tree : Nat → γ → τ) (R : Rendered γ) (c : γ) : Prop :=
  ∀ (T : SymbolTable) (recover : KindSet) (after : List Token), P recover (nextKind after) →
    Yields E 0 T (read recover) (R.tokens c) after (tree T.current c) (R.reports c) T

/-- What stands behind a condition is waited for and is no operator. -/
def Bounds (recover : KindSet) (k : Kind) : Prop := k ∈ recover ∧ k ∉ operatorKinds

/-- The operands of statements and declarations are read as they are rendered.  A condition
    begins as it is derived, since this is the place of a branch. -/
def PartRead (E : Abort → Stream → Prop) (V : Trees) (R : Rendering) : Part → Prop
  | .condition c => (R.condition.tokens c).head? = some c.first ∧
      OperandRead E condition Bounds V.condition R.condition c
  | .expression c => OperandRead E expression Bounds V.expression R.expression c
  | .constant c => OperandRead E constant Settles V.constant R.constant c
  | .token _ => True
  | .told _ => True

/-- What holds of the parts of a sequence holds of the parts of each of its members. -/
theorem parts_read {E : Abort → Stream → Prop} {V : Trees} {R : Rendering} {P : Token → Prop}
    {γ : Type} {parts : γ → List Part} {depth : γ → Nat} {first : γ}
    {more : List ({ t // P t } × γ)} {k : Nat} {Q : Prop}
    (hread : ∀ p ∈ parts first ++ partsBehind parts more, PartRead E V R p)
    (hdepth : max (depth first) (most (fun p => depth p.2) more) ≤ k ∨ Q) :
    ((∀ p ∈ parts first, PartRead E V R p) ∧ (depth first ≤ k ∨ Q)) ∧
      ∀ c ∈ more, (∀ p ∈ parts c.2, PartRead E V R p) ∧ (depth c.2 ≤ k ∨ Q) := by
  obtain ⟨hfirst, hmore⟩ := List.forall_mem_append.mp hread
  refine ⟨⟨hfirst, hdepth.imp_left fun h => (Nat.max_le.mp h).1⟩, fun c hc => ⟨?_, ?_⟩⟩
  · exact fun p hp => hmore p (List.mem_flatMap.mpr ⟨c, hc, List.mem_cons_of_mem _ hp⟩)
  · have hle := Derivation.le_most (f := fun p => depth p.2) hc
    exact hdepth.imp_left fun h => Nat.le_trans hle (Nat.max_le.mp h).2

/-! ### Which operands are read -/

section

variable {E : Abort → Stream → Prop}

/-- A part with parentheses and signs without end, as long as a number stands behind more
    signs than may nest. -/
theorem part_limited {fill : Derivation.Filling} {p : Part}
    (hp : ∀ k, p = .constant k → k.nesting ≤ maxNesting ∨ k.base.kind = .number) :
    PartRead E .limited (.limited fill) p := by
  cases p with
  | token t => trivial
  | condition c =>
    exact ⟨(c.typed_begins fill 0).1, fun _ _ _ h => condition_renders c h.1 h.2⟩
  | expression c => exact fun _ _ _ h => expression_renders c h.1 h.2
  | constant c => exact fun _ _ _ h => constant_renders c (hp c rfl) h
  | told ds => trivial

/-- A part whose parentheses and signs are within the limit. -/
theorem part_derived {p : Part} (hp : p.nesting ≤ maxNesting) :
    PartRead E .asDerived .asDerived p := by
  cases p with
  | token t => trivial
  | condition c => exact ⟨c.begins.1, fun _ _ _ h => condition_yields c hp h.1 h.2⟩
  | expression c => exact fun _ _ _ h => expression_yields c hp h.1 h.2
  | constant c => exact fun _ _ _ h => constant_yields c hp h
  | told ds => trivial

/-- The operands of a program within the limit. -/
theorem parts_derived {c : Derivation.Block} (hn : c.nesting ≤ maxNesting) :
    ∀ p ∈ c.parts, PartRead E .asDerived .asDerived p :=
  fun p hp => part_derived ((c.addUp.nesting maxNesting).mpr hn p hp)

end

end PlZero.Grammar
