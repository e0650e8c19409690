/-
  PlZero/Proofs/Completeness/Constants.lean
  =========================================
  **Reading a constant of the grammar** yields its tree.  A constant with too many signs is
  given up at the first sign that is one too many, and the reader skips to a token that its
  callers wait for.  Behind signs and a number that is the token behind the constant, so
  nothing else is reported.  A name may be waited for as well, since definitions begin with
  one; so a name behind too many signs is not passed over.
-/
import PlZero.Grammar.Declarations
import PlZero.Proofs.Completeness.Yields
import PlZero.Proofs.Derivation.Overdeep

namespace PlZero.Grammar

open Reader

open PlZero.Derivation (tooDeepAt)

/-- Neither a sign nor a number is waited for. -/
def Signless (recover : KindSet) : Prop := .minus ∉ recover ∧ .number ∉ recover

instance (recover : KindSet) : Decidable (Signless recover) :=
  inferInstanceAs (Decidable (.minus ∉ recover ∧ .number ∉ recover))

theorem Signless.union {recover ks : KindSet} (h : Signless recover) (hks : Signless ks) :
    Signless (recover ∪ ks) := by
  constructor
  · exact fun hmem => (KindSet.mem_union.mp hmem).elim h.1 hks.1
  · exact fun hmem => (KindSet.mem_union.mp hmem).elim h.2 hks.2

/-- What stands behind a constant is waited for, and neither a sign nor a number is. -/
def Settles (recover : KindSet) (k : Kind) : Prop := k ∈ recover ∧ Signless recover

variable {E : Abort → Stream → Prop} {n : Nat} {T : SymbolTable} {recover : KindSet}
  {after : List Token}

/-- Signs and a number are skipped where neither is waited for. -/
theorem constant_skipped (c : Derivation.Constant) (hbase : c.base.kind = .number)
    (hsettles : Settles recover (nextKind after)) :
    Yields E n T (skipTo recover) c.tokens after () [] T := by
  refine .skipTo (fun u hu => ?_) hsettles.1
  rw [c.tokens_eq, List.mem_append, List.mem_singleton] at hu
  rcases hu with hu | rfl
  · rw [c.signs_kind u hu]
    exact hsettles.2.1
  · rw [hbase]
    exact hsettles.2.2

theorem constantOver_yields {operand : KindSet → Reader Constant}
    (hoperand : ∀ (c : Derivation.Constant) (r : KindSet) (us : List Token), n < maxNesting →
      (n + 1 + c.nesting ≤ maxNesting ∨ c.base.kind = .number) → Settles r (nextKind us) →
        Yields E (n + 1) T (operand r) c.tokens us (c.treeAt (n + 1) T.current)
          ((c.overdeep (n + 1)).map tooDeepAt) T)
    (c : Derivation.Constant) (hn : n + c.nesting ≤ maxNesting ∨ c.base.kind = .number)
    (hsettles : Settles recover (nextKind after)) :
    Yields E n T (constantOver operand recover) c.tokens after (c.treeAt n T.current)
      ((c.overdeep n).map tooDeepAt) T := by
  obtain ⟨hhead, hstart⟩ := c.begins
  refine .currentScope (.attempt hhead hstart hsettles.1 ?_)
  cases c with
  | number t =>
    refine .head rfl ?_
    rw [t.property]
    exact .number rfl t.property (.expect t.property .pure)
  | name t =>
    refine .head rfl ?_
    rw [t.property]
    exact .name rfl t.property (.expect t.property .pure)
  | negated sign c =>
    rw [Derivation.Constant.nesting] at hn
    rw [Derivation.Constant.treeAt, Derivation.Constant.overdeep]
    refine .head rfl ?_
    rw [sign.property]
    refine .expect sign.property ?_
    by_cases hlt : n < maxNesting
    · rw [if_pos hlt, if_pos hlt]
      have hc := hoperand c recover after hlt (hn.imp_left fun h => by omega) hsettles
      exact .atLimit hlt (.map (.deeper hc))
    · rw [if_neg hlt, if_neg hlt]
      have hbase : c.base.kind = .number := hn.resolve_left (by omega)
      refine .full (Nat.le_of_not_lt hlt) (.aside .report ?_)
      exact .last (constant_skipped c hbase hsettles) .pure

/-- The levels that are counted down last as long as the nesting stays within its limit. -/
theorem constantWithin_yields (k : Nat) : ∀ (n : Nat) (c : Derivation.Constant)
    (recover : KindSet) (after : List Token), maxNesting < n + k → n ≤ maxNesting →
      (n + c.nesting ≤ maxNesting ∨ c.base.kind = .number) → Settles recover (nextKind after) →
        Yields E n T (constantWithin k recover) c.tokens after (c.treeAt n T.current)
          ((c.overdeep n).map tooDeepAt) T := by
  induction k with
  | zero =>
    intro n c recover after hk hn
    omega
  | succ k ih =>
    intro n c recover after hk hn hbase hsettles
    refine constantOver_yields ?_ c hbase hsettles
    exact fun c r us hlt => ih (n + 1) c r us (by omega) hlt

theorem constant_renders (c : Derivation.Constant)
    (hn : c.nesting ≤ maxNesting ∨ c.base.kind = .number)
    (hsettles : Settles recover (nextKind after)) :
    Yields E 0 T (constant recover) c.tokens after (c.treeAt 0 T.current)
      ((c.overdeep 0).map tooDeepAt) T := by
  refine constantOver_yields ?_ c (hn.imp_left fun h => by omega) hsettles
  exact fun c r us hlt => constantWithin_yields maxNesting 1 c r us (by omega) hlt

/-- A constant within the limit is read as its tree, and nothing is reported. -/
theorem constant_yields (c : Derivation.Constant) (hn : c.nesting ≤ maxNesting)
    (hsettles : Settles recover (nextKind after)) :
    Yields E 0 T (constant recover) c.tokens after (c.tree T.current) [] T := by
  obtain ⟨hdeep, htree⟩ := Derivation.Constant.within (n := 0) T.current (c := c) (by omega)
  have h := constant_renders (E := E) (T := T) c (.inl hn) hsettles
  rwa [hdeep, htree] at h

end PlZero.Grammar
