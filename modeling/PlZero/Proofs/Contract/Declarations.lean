/-
  PlZero/Proofs/Contract/Declarations.lean
  ========================================
  **The frame of declarations.**  Every rule stops at a token that its caller waits for and
  adds only proper entries to the table.  A constant that was read is in the innermost open
  scope, so that it can be folded and no declaration ends the run.
-/
import PlZero.Grammar.Declarations
import PlZero.Proofs.Contract.Expressions
import PlZero.Proofs.Scope.Readers

namespace PlZero

namespace Grammar

open Reader

variable {n : Nat} {E : Abort → Stream → Prop} {L : Location → Prop} {recover : KindSet}
  {s : ReaderState}

/-! ### Constants -/

theorem Starts.mem_constant {k : Kind} (h : k ∈ Starts.constant) :
    k = .identifier ∨ k = .number ∨ k = .minus := by
  simpa [Starts.constant] using h

theorem constantOver_runs {b : Nat} {operand : KindSet → Reader Constant}
    (hoperand : ∀ r (t : ReaderState), b ≤ t.nesting →
      Runs n E L (operand r) (fun c u => c.Proper L ∧ u.Waits r) t)
    (hb : b ≤ s.nesting + 1) :
    Runs n E L (constantOver operand recover) (fun c t => c.Proper L ∧ t.Waits recover) s := by
  refine .look fun _ => .attempt (fun l hl => hl) fun l t hl hnesting hk => .look fun _ => ?_
  rcases Starts.mem_constant hk with hk | hk | hk
  · rw [hk]
    refine .name hk fun x => ?_
    exact .bind (.expect hk) fun _ _ _ _ => .pure hl
  · rw [hk]
    refine .number hk fun x => ?_
    exact .bind (.expect hk) fun _ _ _ _ => .pure hl
  · rw [hk]
    refine .bind (.expect hk) fun _ u hu _ => .look fun _ => ?_
    by_cases hlimit : maxNesting ≤ u.nesting
    · rw [if_pos (decide_eq_true hlimit)]
      exact .bind (.report hl) fun _ _ _ _ => .bind .skipTo fun _ _ _ _ => .pure hl
    · rw [if_neg (by simpa using hlimit)]
      refine .bind (.deeper (P := fun c => c.Proper L) (Nat.lt_of_not_le hlimit) fun v hv => ?_)
        fun c v _ hc => .pure ⟨hl, hc⟩
      refine (hoperand _ v ?_).post fun c w _ h => h.1
      rw [hv, hu.nesting, hnesting]
      exact hb

theorem constantWithin_runs (k : Nat) : ∀ (recover : KindSet) (s : ReaderState),
    maxNesting + 1 - k ≤ s.nesting →
      Runs n E L (constantWithin k recover) (fun c t => c.Proper L ∧ t.Waits recover) s := by
  induction k with
  | zero =>
    intro recover s hb hs _
    exact absurd (Nat.le_trans hb hs.nesting) (Nat.not_succ_le_self _)
  | succ k ih =>
    intro recover s hb
    exact constantOver_runs ih (by omega)

theorem constant_runs :
    Runs n E L (constant recover) (fun c t => c.Proper L ∧ t.Waits recover) s :=
  constantOver_runs (constantWithin_runs maxNesting) (by omega)

/-! ### Definitions -/

theorem definition_runs {β : Type} {r : Rule} {sign : Kind} {follow : KindSet}
    {meaning : KindSet → Reader β} {declare : String → Location → β → Reader Unit}
    {M : β → SymbolTable → Prop} (hstart : r.starts = {.identifier})
    (hmeaning : ∀ k (t : ReaderState), Runs n E L (meaning k) (fun m u => M m u.symbols) t)
    (hdeclare : ∀ x l m (t : ReaderState), L l → M m t.symbols →
      Runs n E L (declare x l m) (fun _ _ => True) t) :
    Runs n E L (definition r sign follow meaning declare recover)
      (fun _ t => t.Waits recover) s := by
  refine (Runs.attempt (P := fun _ => True) (fun _ _ => trivial)
    fun l t hl _ hk => ?_).post fun _ _ _ h => h.2
  have hident : t.stream.head.kind = .identifier := KindSet.mem_braces.mp (hstart ▸ hk)
  refine .name hident fun x => ?_
  refine .look fun ht => .bind (.expect hident) fun _ _ _ _ => .bind .demand fun _ _ _ _ => ?_
  refine .bind (hmeaning _ _) fun m u _ hm => ?_
  exact .bind (hdeclare x _ m u ht.within.head hm) fun _ _ _ _ => .demand

theorem definitionList_runs {r : Rule} {keyword : Kind} {item : KindSet → Reader Unit}
    (hstart : r.starts = {keyword})
    (hitem : ∀ k (t : ReaderState), Runs n E L (item k) (fun _ u => u.Waits k) t)
    (hk : s.stream.head.kind = keyword) :
    Runs n E L (definitionList r keyword item recover) (fun _ t => t.Waits recover) s := by
  refine (Runs.certainly (P := fun _ => True) ?_ fun l t _ _ hk => ?_).post fun _ _ _ h => h.2
  · rw [hstart, KindSet.mem_braces]
    exact hk
  · refine .bind (.expect (KindSet.mem_braces.mp (hstart ▸ hk))) fun _ _ _ _ => ?_
    refine .bind (hitem _ _) fun _ _ _ _ => ?_
    exact .whileIn trivial fun _ _ _ _ _ => (hitem _ _).post fun _ _ _ _ => trivial

/-! ### Constant definitions -/

theorem declareConstant_runs {x : String} {l : Location} {tree : Constant} (hl : L l)
    (htree : tree.Proper L) (hscope : tree.InScope s.symbols.current) :
    Runs n E L (declareConstant x l tree) (fun _ _ => True) s := by
  refine .look fun hs => ?_
  obtain ⟨value, hok⟩ := SymbolTable.declareConstant_inScope hscope hs.opened.current x l
  rw [hok]
  exact .bind (.declared hl fun _ hr => ⟨.constant tree value, htree,
    SymbolTable.declare_some hr⟩) fun _ _ _ _ => .pure trivial

/-- A constant is declared in the scope in which it was read, and therefore can be folded. -/
theorem constantDefinition_runs :
    Runs n E L (constantDefinition recover) (fun _ t => t.Waits recover) s := by
  refine definition_runs (M := fun c t => c.Proper L ∧ c.InScope t.current) rfl
    (fun k t => ?_) fun _ _ _ _ hl h => declareConstant_runs hl h.1 h.2
  refine (constant_runs.leaving constant_leaves).post fun c u _ h => ?_
  obtain ⟨⟨hproper, -⟩, hscope, hsame⟩ := h
  exact ⟨hproper, hsame ▸ hscope⟩

theorem constantList_runs (hk : s.stream.head.kind = .kwConst) :
    Runs n E L (constantList recover) (fun _ t => t.Waits recover) s :=
  definitionList_runs rfl (fun _ _ => constantDefinition_runs) hk

/-! ### Types -/

theorem Starts.mem_type {k : Kind} (h : k ∈ Starts.type) : k = .identifier ∨ k = .leftBracket := by
  simpa [Starts.type] using h

theorem typeIdentifier_runs :
    Runs n E L (typeIdentifier recover) (fun m t => m.Proper L ∧ t.Waits recover) s := by
  refine .attempt (fun _ _ => trivial) fun l t _ _ hk => ?_
  have hident : t.stream.head.kind = .identifier := KindSet.mem_braces.mp hk
  refine .name hident fun x => ?_
  refine .look fun _ => .look fun ht => .bind (.expect hident) fun _ _ _ _ => ?_
  exact .pure ht.within.head

theorem subrangeType_runs :
    Runs n E L (subrangeType recover) (fun m t => m.Proper L ∧ t.Waits recover) s := by
  refine .attempt (fun _ _ => trivial) fun l t _ _ hk => ?_
  refine .bind (.expect (KindSet.mem_braces.mp hk)) fun _ _ _ _ => ?_
  refine .bind constant_runs fun lower _ _ hlower => .bind .demand fun _ _ _ _ => ?_
  refine .bind constant_runs fun upper _ _ hupper => .bind .demand fun _ _ _ _ => ?_
  exact .pure ⟨hlower.1, hupper.1⟩

theorem typeExpr_runs :
    Runs n E L (typeExpr recover) (fun m t => m.Proper L ∧ t.Waits recover) s := by
  refine .attempt (fun _ _ => trivial) fun l t _ _ hk => .look fun _ => ?_
  rcases Starts.mem_type hk with hk | hk
  · rw [hk]
    exact typeIdentifier_runs.post fun _ _ _ h => h.1
  · rw [hk]
    exact subrangeType_runs.post fun _ _ _ h => h.1

theorem declareType_runs {x : String} {l : Location} {meaning : TypeExpr} (hl : L l)
    (hmeaning : meaning.Proper L) :
    Runs n E L (declareType x l meaning) (fun _ _ => True) s :=
  .look fun _ => .bind (.declared hl fun _ hr => ⟨.type meaning, hmeaning,
    SymbolTable.declare_some hr⟩) fun _ _ _ _ => .pure trivial

theorem typeDefinition_runs :
    Runs n E L (typeDefinition recover) (fun _ t => t.Waits recover) s :=
  definition_runs (M := fun m _ => m.Proper L) rfl
    (fun _ _ => typeExpr_runs.post fun _ _ _ h => h.1) fun _ _ _ _ => declareType_runs

theorem typeList_runs (hk : s.stream.head.kind = .kwType) :
    Runs n E L (typeList recover) (fun _ t => t.Waits recover) s :=
  definitionList_runs rfl (fun _ _ => typeDefinition_runs) hk

/-! ### Variables -/

theorem declareVariable_runs {x : String} {l : Location} {base : TypeExpr} (hl : L l)
    (hbase : base.Proper L) : Runs n E L (declareVariable x l base) (fun _ _ => True) s :=
  .look fun _ => .bind (.declared hl fun _ hr => ⟨.variableOf base, hbase,
    SymbolTable.declare_some hr⟩) fun _ _ _ _ => .pure trivial

theorem variableDeclaration_runs :
    Runs n E L (variableDeclaration recover) (fun _ t => t.Waits recover) s :=
  definition_runs (M := fun m _ => m.Proper L) rfl
    (fun _ _ => typeIdentifier_runs.post fun _ _ _ h => h.1) fun _ _ _ _ => declareVariable_runs

theorem variableList_runs (hk : s.stream.head.kind = .kwVar) :
    Runs n E L (variableList recover) (fun _ t => t.Waits recover) s :=
  definitionList_runs rfl (fun _ _ => variableDeclaration_runs) hk

end Grammar

end PlZero
