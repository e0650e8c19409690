/-
  PlZero/Proofs/Scope/Readers.lean
  ================================
  **Every reader keeps to the innermost open scope.**  A statement, an expression, a constant
  or a type that is read carries the number of the scope that is open, whatever went wrong on
  the way, and reading it leaves the table as it is.  A list of definitions declares them
  (`SymbolTable.Declarations`), and a block registers its procedures (`SymbolTable.Registered`).
-/
import PlZero.Grammar.Blocks
import PlZero.Proofs.Reading.Leaves
import PlZero.Proofs.Scope.Declarations

namespace PlZero.Grammar

open Reader SymbolTable

variable {t : SymbolTable} {recover : KindSet}

/-! ### Expressions -/

theorem lvalue_leaves :
    Leaves t (lvalue recover) fun e u => e.InScope t.current ∧ u = t := by
  apply Leaves.attempt
  · intro l
    exact ⟨trivial, rfl⟩
  · intro l
    apply Leaves.still .name
    intro x
    apply Leaves.currentScope
    exact .still .expect fun _ => .pure ⟨rfl, rfl⟩

section

variable {inside : KindSet → Reader Expression}
  (hinside : ∀ r, Leaves t (inside r) fun e u => e.InScope t.current ∧ u = t)
include hinside

theorem factorOver_leaves :
    Leaves t (factorOver inside recover) fun e u => e.InScope t.current ∧ u = t := by
  apply Leaves.attempt
  · intro l
    exact ⟨trivial, rfl⟩
  · intro l
    apply Leaves.look
    intro sign
    split
    · exact lvalue_leaves
    · apply Leaves.still .number
      intro value
      exact .still .expect fun _ => .pure ⟨trivial, rfl⟩
    · apply Leaves.still .expect
      intro _
      apply Leaves.look
      intro limit
      split
      · apply Leaves.still .report
        intro _
        exact .still .onStream fun _ => .pure ⟨trivial, rfl⟩
      · apply (hinside _).deeper.bind
        rintro e u ⟨he, rfl⟩
        exact .still .demand fun _ => .pure ⟨he, rfl⟩
    · exact .unreachable

omit hinside in
theorem joined_leaves {kinds : KindSet} {operator : Kind → Operator} {part : Reader Expression}
    {first : Expression} (hfirst : first.InScope t.current)
    (hpart : Leaves t part fun e u => e.InScope t.current ∧ u = t) :
    Leaves t (joined kinds operator part first) fun e u => e.InScope t.current ∧ u = t := by
  apply Leaves.whileIn
  · exact ⟨hfirst, rfl⟩
  · rintro left u ⟨hleft, rfl⟩
    apply Leaves.look
    intro sign
    apply Leaves.still .expect
    intro _
    apply hpart.bind
    rintro right v ⟨hright, rfl⟩
    exact .pure ⟨⟨hleft, hright⟩, rfl⟩

theorem termOver_leaves :
    Leaves t (termOver inside recover) fun e u => e.InScope t.current ∧ u = t := by
  apply Leaves.attempt
  · intro l
    exact ⟨trivial, rfl⟩
  · intro l
    apply (factorOver_leaves hinside).bind
    rintro first u ⟨hfirst, rfl⟩
    exact joined_leaves hfirst (factorOver_leaves hinside)

omit hinside in
theorem leadingSign_still : Still leadingSign := by
  intro t
  apply Leaves.look
  intro sign
  split
  · exact .still .expect fun _ => .pure rfl
  · exact .pure rfl

theorem expressionOver_leaves :
    Leaves t (expressionOver inside recover) fun e u => e.InScope t.current ∧ u = t := by
  apply Leaves.attempt
  · intro l
    exact ⟨trivial, rfl⟩
  · intro l
    apply Leaves.still leadingSign_still
    intro negative
    apply (termOver_leaves hinside).bind
    rintro first u ⟨hfirst, rfl⟩
    apply joined_leaves _ (termOver_leaves hinside)
    split
    · exact hfirst
    · exact hfirst

omit hinside in
theorem relOp_still : Still (relOp recover) := by
  intro t
  apply Leaves.certainly
  intro l
  apply Leaves.look
  intro sign
  exact .still .expect fun _ => .pure rfl

theorem conditionOver_leaves :
    Leaves t (conditionOver inside recover) fun e u => e.InScope t.current ∧ u = t := by
  apply Leaves.attempt
  · intro l
    exact ⟨trivial, rfl⟩
  · intro l
    apply (expressionOver_leaves hinside).bind
    rintro left u ⟨hleft, rfl⟩
    apply Leaves.look
    intro compared
    split
    · apply Leaves.look
      intro place
      apply Leaves.still relOp_still
      intro op
      apply (expressionOver_leaves hinside).bind
      rintro right v ⟨hright, rfl⟩
      exact .pure ⟨⟨hleft, hright⟩, rfl⟩
    · exact .pure ⟨hleft, rfl⟩

end

theorem conditionWithin_leaves (n : Nat) :
    ∀ r, Leaves t (conditionWithin n r) fun e u => e.InScope t.current ∧ u = t := by
  induction n with
  | zero => exact fun _ => .tooDeep
  | succ n ih => exact fun _ => conditionOver_leaves ih

theorem condition_leaves :
    Leaves t (condition recover) fun e u => e.InScope t.current ∧ u = t :=
  conditionOver_leaves (conditionWithin_leaves maxNesting)

theorem expression_leaves :
    Leaves t (expression recover) fun e u => e.InScope t.current ∧ u = t :=
  expressionOver_leaves (conditionWithin_leaves maxNesting)

/-! ### Statements -/

theorem mem_padded_inScope {filler : Expression} {k n : Nat} {es : List Expression}
    (hfiller : filler.InScope k) (hes : ∀ e ∈ es, e.InScope k) :
    ∀ e ∈ padded filler n es, e.InScope k := by
  intro e he
  rcases List.mem_append.mp he with he | he
  · exact hes e he
  · rw [List.eq_of_mem_replicate he]
    exact hfiller

theorem assignment_leaves :
    Leaves t (assignment recover) fun a u => a.InScope t.current ∧ u = t := by
  apply Leaves.attempt
  · intro l
    exact ⟨by simp [Statement.InScope, Expression.InScope], rfl⟩
  · intro l
    apply (Leaves.separated .demand lvalue_leaves).bind
    rintro targets u ⟨htargets, rfl⟩
    apply Leaves.look
    intro place
    apply Leaves.still .demand
    intro _
    apply (Leaves.separated .demand condition_leaves).bind
    rintro values v ⟨hvalues, rfl⟩
    apply Leaves.still .reportUnless
    intro _
    apply Leaves.look
    intro filler
    apply Leaves.pure
    refine ⟨⟨?_, ?_⟩, rfl⟩
    · exact mem_padded_inScope trivial htargets
    · exact mem_padded_inScope trivial hvalues

theorem readStatement_leaves :
    Leaves t (readStatement recover) fun a u => a.InScope t.current ∧ u = t := by
  apply Leaves.certainly
  intro l
  apply Leaves.still .expect
  intro _
  apply lvalue_leaves.bind
  rintro target u ⟨htarget, rfl⟩
  apply Leaves.pure
  refine ⟨⟨?_, ?_⟩, rfl⟩
  · simpa using htarget
  · simp [Expression.InScope]

theorem writeStatement_leaves :
    Leaves t (writeStatement recover) fun a u => a.InScope t.current ∧ u = t := by
  apply Leaves.certainly
  intro l
  apply Leaves.still .expect
  intro _
  apply expression_leaves.bind
  rintro value u ⟨hvalue, rfl⟩
  exact .pure ⟨hvalue, rfl⟩

theorem nameAndParens_still : Still (nameAndParens recover) :=
  Still.demand.then fun _ => Still.demand.then fun _ => .demand

theorem calledName_still : Still calledName := by
  intro t
  apply Leaves.look
  intro named
  split
  · exact Still.name t
  · exact .pure rfl

theorem callStatement_leaves :
    Leaves t (callStatement recover) fun a u => a.InScope t.current ∧ u = t := by
  apply Leaves.certainly
  intro l
  apply Leaves.still .expect
  intro _
  apply Leaves.still calledName_still
  intro x
  apply Leaves.still nameAndParens_still
  intro _
  exact .currentScope (.pure ⟨rfl, rfl⟩)

theorem skipStatement_leaves :
    Leaves t (skipStatement recover) fun a u => a.InScope t.current ∧ u = t := by
  apply Leaves.certainly
  intro l
  exact .still .expect fun _ => .pure ⟨trivial, rfl⟩

section

variable {statement : KindSet → Reader Statement}
  (hstatement : ∀ r, Leaves t (statement r) fun a u => a.InScope t.current ∧ u = t)
include hstatement

theorem whileStatement_leaves :
    Leaves t (whileStatement statement recover) fun a u => a.InScope t.current ∧ u = t := by
  apply Leaves.certainly
  intro l
  apply Leaves.still .expect
  intro _
  apply condition_leaves.bind
  rintro test u ⟨htest, rfl⟩
  apply Leaves.still .demand
  intro _
  apply (hstatement _).bind
  rintro body v ⟨hbody, rfl⟩
  exact .pure ⟨⟨htest, hbody⟩, rfl⟩

theorem ifStatement_leaves :
    Leaves t (ifStatement statement recover) fun a u => a.InScope t.current ∧ u = t := by
  apply Leaves.certainly
  intro l
  apply Leaves.still .expect
  intro _
  apply condition_leaves.bind
  rintro test u ⟨htest, rfl⟩
  apply Leaves.still .demand
  intro _
  apply (hstatement _).bind
  rintro thenBranch v ⟨hthen, rfl⟩
  apply Leaves.still .demand
  intro _
  apply (hstatement _).bind
  rintro elseBranch w ⟨helse, rfl⟩
  exact .pure ⟨⟨htest, hthen, helse⟩, rfl⟩

theorem statementList_leaves :
    Leaves t (statementList statement recover) fun a u => a.InScope t.current ∧ u = t := by
  apply Leaves.attempt
  · intro l
    exact ⟨trivial, rfl⟩
  · intro l
    apply (Leaves.separated .expect (hstatement _)).bind
    rintro statements u ⟨hstatements, rfl⟩
    exact .pure ⟨Statement.allInScope_iff.mpr hstatements, rfl⟩

theorem compoundStatement_leaves :
    Leaves t (compoundStatement statement recover) fun a u => a.InScope t.current ∧ u = t := by
  apply Leaves.attempt
  · intro l
    exact ⟨trivial, rfl⟩
  · intro l
    apply Leaves.still .expect
    intro _
    apply (statementList_leaves hstatement).bind
    rintro list u ⟨hlist, rfl⟩
    exact .still .demand fun _ => .pure ⟨hlist, rfl⟩

theorem doBranch_leaves :
    Leaves t (doBranch statement recover) fun b u => b.InScope t.current ∧ u = t := by
  apply Leaves.attempt
  · intro l
    exact ⟨⟨trivial, trivial⟩, rfl⟩
  · intro l
    apply condition_leaves.bind
    rintro test u ⟨htest, rfl⟩
    apply Leaves.still .demand
    intro _
    apply (statementList_leaves hstatement).bind
    rintro body v ⟨hbody, rfl⟩
    apply Leaves.look
    intro exits
    split
    · exact .still .expect fun _ => .pure ⟨⟨htest, hbody⟩, rfl⟩
    · exact .pure ⟨⟨htest, hbody⟩, rfl⟩

theorem doStatement_leaves :
    Leaves t (doStatement statement recover) fun a u => a.InScope t.current ∧ u = t := by
  apply Leaves.certainly
  intro l
  apply Leaves.still .expect
  intro _
  apply (Leaves.separated .expect (doBranch_leaves hstatement)).bind
  rintro branches u ⟨hbranches, rfl⟩
  exact .still .demand fun _ => .pure ⟨Branch.allInScope_iff.mpr hbranches, rfl⟩

theorem statementOver_leaves :
    Leaves t (statementOver statement recover) fun a u => a.InScope t.current ∧ u = t := by
  apply Leaves.attempt
  · intro l
    exact ⟨trivial, rfl⟩
  · intro l
    apply Leaves.look
    intro first
    split
    · exact assignment_leaves
    · exact whileStatement_leaves hstatement
    · exact ifStatement_leaves hstatement
    · exact readStatement_leaves
    · exact writeStatement_leaves
    · exact callStatement_leaves
    · exact compoundStatement_leaves hstatement
    · exact skipStatement_leaves
    · exact doStatement_leaves hstatement
    · exact .unreachable

end

theorem statementWithin_leaves (n : Nat) :
    ∀ r, Leaves t (statementWithin n r) fun a u => a.InScope t.current ∧ u = t := by
  induction n with
  | zero => exact fun _ => .tooDeep
  | succ n ih => exact fun _ => statementOver_leaves ih

/-! ### Constants and types -/

theorem constantOver_leaves {operand : KindSet → Reader Constant}
    (hoperand : ∀ r, Leaves t (operand r) fun c u => c.InScope t.current ∧ u = t) :
    Leaves t (constantOver operand recover) fun c u => c.InScope t.current ∧ u = t := by
  apply Leaves.currentScope
  apply Leaves.attempt
  · intro l
    exact ⟨rfl, rfl⟩
  · intro l
    apply Leaves.look
    intro sign
    split
    · apply Leaves.still .number
      intro value
      exact .still .expect fun _ => .pure ⟨rfl, rfl⟩
    · apply Leaves.still .name
      intro x
      exact .still .expect fun _ => .pure ⟨rfl, rfl⟩
    · apply Leaves.still .expect
      intro _
      apply Leaves.look
      intro limit
      split
      · apply Leaves.still .report
        intro _
        exact .still .skipTo fun _ => .pure ⟨rfl, rfl⟩
      · apply (hoperand _).deeper.bind
        rintro c u ⟨hc, rfl⟩
        exact .pure ⟨⟨rfl, hc⟩, rfl⟩
    · exact .unreachable

theorem constantWithin_leaves (n : Nat) :
    ∀ r, Leaves t (constantWithin n r) fun c u => c.InScope t.current ∧ u = t := by
  induction n with
  | zero => exact fun _ => .tooDeep
  | succ n ih => exact fun _ => constantOver_leaves ih

theorem constant_leaves :
    Leaves t (constant recover) fun c u => c.InScope t.current ∧ u = t :=
  constantOver_leaves (constantWithin_leaves maxNesting)

theorem typeIdentifier_leaves :
    Leaves t (typeIdentifier recover) fun m u => m.InScope t.current ∧ u = t := by
  apply Leaves.attempt
  · intro l
    exact ⟨trivial, rfl⟩
  · intro l
    apply Leaves.still .name
    intro x
    apply Leaves.currentScope
    apply Leaves.look
    intro place
    exact .still .expect fun _ => .pure ⟨rfl, rfl⟩

theorem subrangeType_leaves :
    Leaves t (subrangeType recover) fun m u => m.InScope t.current ∧ u = t := by
  apply Leaves.attempt
  · intro l
    exact ⟨trivial, rfl⟩
  · intro l
    apply Leaves.still .expect
    intro _
    apply constant_leaves.bind
    rintro lower u ⟨hlower, rfl⟩
    apply Leaves.still .demand
    intro _
    apply constant_leaves.bind
    rintro upper v ⟨hupper, rfl⟩
    exact .still .demand fun _ => .pure ⟨⟨hlower, hupper⟩, rfl⟩

theorem typeExpr_leaves :
    Leaves t (typeExpr recover) fun m u => m.InScope t.current ∧ u = t := by
  apply Leaves.attempt
  · intro l
    exact ⟨trivial, rfl⟩
  · intro l
    apply Leaves.look
    intro sign
    split
    · exact typeIdentifier_leaves
    · exact subrangeType_leaves
    · exact .unreachable

/-! ### Definitions -/

/-- The outcome of a declaration is that the name is taken, or that it is declared. -/
theorem declared_leaves {complaint : Declared} (what : SymbolTable.Declaration) {x : String}
    {l : Location} {outcome : Option (Entry × SymbolTable)} (hplain : what ≠ .procedure)
    (hwhat : what.InScope t.current) (h : t.declareAs x l what = .ok outcome) :
    Leaves t (declared complaint x l outcome) fun _ u => t.Declarations u := by
  apply Leaves.declared
  · intro _
    exact .refl t
  · rintro e u rfl
    exact .declared what hplain hwhat h

theorem definition_leaves {γ : Type} {r : Rule} {sign : Kind} {follow : KindSet}
    {meaning : KindSet → Reader γ} {declare : String → Location → γ → Reader Unit}
    {P : γ → Prop} (hmeaning : ∀ k, Leaves t (meaning k) fun m u => P m ∧ u = t)
    (hdeclare : ∀ x l m, P m → Leaves t (declare x l m) fun _ u => t.Declarations u) :
    Leaves t (definition r sign follow meaning declare recover)
      fun _ u => t.Declarations u := by
  apply Leaves.attempt
  · intro _
    exact .refl t
  · intro _
    apply Leaves.still .name
    intro x
    apply Leaves.look
    intro l
    apply Leaves.still .expect
    intro _
    apply Leaves.still .demand
    intro _
    apply (hmeaning _).bind
    rintro m u ⟨hm, rfl⟩
    apply (hdeclare x l m hm).bind
    intro _ v hv
    exact (Still.demand v).post fun _ w hw => hw ▸ hv

theorem definitionList_leaves {r : Rule} {keyword : Kind} {item : KindSet → Reader Unit}
    (hitem : ∀ k (t : SymbolTable), Leaves t (item k) fun _ u => t.Declarations u) :
    Leaves t (definitionList r keyword item recover) fun _ u => t.Declarations u := by
  apply Leaves.certainly
  intro _
  apply Leaves.still .expect
  intro _
  apply (hitem _ t).bind
  intro _ u hu
  apply Leaves.whileIn (Q := fun _ u => t.Declarations u) hu
  intro _ v hv
  exact (hitem _ v).post fun _ w hw => hv.trans hw

theorem declareConstant_leaves {x : String} {l : Location} {tree : Constant}
    (htree : tree.InScope t.current) :
    Leaves t (declareConstant x l tree) fun _ u => t.Declarations u := by
  apply Leaves.symbols
  cases houtcome : t.declareConstant x l tree with
  | error node => exact .of_error fun _ => ⟨_, _, rfl⟩
  | ok outcome =>
    have hdeclared : Leaves t (declared .constantName x l outcome) fun _ u => t.Declarations u :=
      declared_leaves (.constant tree) (by simp) htree houtcome
    exact hdeclared.bind fun _ _ hu => .pure hu

theorem constantDefinition_leaves :
    Leaves t (constantDefinition recover) fun _ u => t.Declarations u :=
  definition_leaves (fun _ => constant_leaves) fun _ _ _ => declareConstant_leaves

theorem constantList_leaves : Leaves t (constantList recover) fun _ u => t.Declarations u :=
  definitionList_leaves fun _ _ => constantDefinition_leaves

theorem declareType_leaves {x : String} {l : Location} {meaning : TypeExpr}
    (hmeaning : meaning.InScope t.current) :
    Leaves t (declareType x l meaning) fun _ u => t.Declarations u := by
  apply Leaves.symbols
  apply (declared_leaves (.type meaning) (by simp) hmeaning rfl).bind
  exact fun _ _ hu => .pure hu

theorem typeDefinition_leaves : Leaves t (typeDefinition recover) fun _ u => t.Declarations u :=
  definition_leaves (fun _ => typeExpr_leaves) fun _ _ _ => declareType_leaves

theorem typeList_leaves : Leaves t (typeList recover) fun _ u => t.Declarations u :=
  definitionList_leaves fun _ _ => typeDefinition_leaves

theorem declareVariable_leaves {x : String} {l : Location} {base : TypeExpr}
    (hbase : base.InScope t.current) :
    Leaves t (declareVariable x l base) fun _ u => t.Declarations u := by
  apply Leaves.symbols
  apply (declared_leaves (.variableOf base) (by simp) hbase rfl).bind
  exact fun _ _ hu => .pure hu

theorem variableDeclaration_leaves :
    Leaves t (variableDeclaration recover) fun _ u => t.Declarations u :=
  definition_leaves (fun _ => typeIdentifier_leaves) fun _ _ _ => declareVariable_leaves

theorem variableList_leaves : Leaves t (variableList recover) fun _ u => t.Declarations u :=
  definitionList_leaves fun _ _ => variableDeclaration_leaves

/-! ### Procedures and blocks -/

theorem detachedProcedure_leaves {x : String} {l : Location} :
    Leaves t (detachedProcedure x l) t.ProcedureAdded := by
  intro s hs
  subst hs
  exact .bind (.reads (.bind (.modify (.pure (.inr ⟨x, l, rfl⟩)))))

theorem procedureEntry_leaves : Leaves t procedureEntry t.ProcedureAdded := by
  apply Leaves.look
  intro l
  apply Leaves.look
  intro named
  split
  · apply Leaves.still .name
    intro x
    apply Leaves.symbols
    have hdeclared : Leaves t (declared .procedureName x l (t.declareProcedure x l))
        fun added u =>
          (∃ e, added = some e ∧ t.ProcedureAdded e u) ∨ added = none ∧ u = t := by
      apply Leaves.declared
      · intro _
        exact .inr ⟨rfl, rfl⟩
      · intro e u hu
        exact .inl ⟨e, rfl, .inl ⟨x, l, congrArg Except.ok hu⟩⟩
    apply hdeclared.bind
    rintro added u (⟨e, rfl, he⟩ | ⟨rfl, rfl⟩)
    · exact .pure he
    · exact detachedProcedure_leaves
  · exact detachedProcedure_leaves

theorem procedureHeader_leaves : Leaves t (procedureHeader recover) t.ProcedureAdded := by
  apply Leaves.certainly
  intro _
  apply Leaves.still .expect
  intro _
  apply procedureEntry_leaves.bind
  intro e u he
  exact .still nameAndParens_still fun _ => .pure he

/-- What a block leaves that is read in the scope `k`, the innermost open one. -/
def BlockRead (t : SymbolTable) (b : Block) (u : SymbolTable) : Prop :=
  b.scope = t.current ∧ t.Registered b.procedures u ∧ b.body.InScope t.current

section

variable {block : Nat → KindSet → Reader Block}
  (hblock : ∀ r (t : SymbolTable), Leaves t (block t.current r) (BlockRead t))
include hblock

theorem procedureDefinition_leaves :
    Leaves t (procedureDefinition block recover) fun p u => t.Registered [p] u := by
  apply Leaves.certainly
  intro l
  apply procedureHeader_leaves.bind
  intro e u hentry
  have hbody : Leaves u (inScope e.index fun scope => do
      demand .equals Starts.block
      block scope (recover ∪ {.semicolon}))
      fun b v => t.Registered [.mk l e.name e.index b] v := by
    apply Leaves.inScope
    apply Leaves.still .demand
    intro _
    apply (hblock _ (u.enter e.index).2).post
    rintro ⟨l', scope, inner, body⟩ w ⟨hscope, hinner, hin⟩ v hleave
    obtain rfl : scope = (u.enter e.index).1 := hscope
    exact .procedure hentry.entryAdded hinner hin hleave
  apply hbody.bind
  intro b v hv
  exact .still .demand fun _ => .pure hv

theorem declaration_leaves :
    Leaves t (declaration block recover) fun p u => t.Registered p.toList u := by
  apply Leaves.certainly
  intro _
  apply Leaves.look
  intro first
  split
  · exact constantList_leaves.bind fun _ _ hu => .pure hu.registered
  · exact typeList_leaves.bind fun _ _ hu => .pure hu.registered
  · exact variableList_leaves.bind fun _ _ hu => .pure hu.registered
  · exact (procedureDefinition_leaves hblock).bind fun _ _ hu => .pure hu
  · exact .unreachable

theorem blockOver_leaves {statement : KindSet → Reader Statement}
    (hstatement : ∀ r (t : SymbolTable),
      Leaves t (statement r) fun a u => a.InScope t.current ∧ u = t) :
    Leaves t (blockOver statement block t.current recover) (BlockRead t) := by
  apply Leaves.attempt
  · intro l
    exact ⟨rfl, .refl t, trivial⟩
  · intro l
    -- what was registered is what the procedures found so far stand for, in their order
    apply Leaves.bind (Q := fun found u => t.Registered found.reverse u)
    · apply Leaves.whileIn
      · exact .refl t
      · intro found u hfound
        apply (declaration_leaves hblock).bind
        intro added v hadded
        cases added with
        | none =>
          have hv := hfound.trans hadded
          rw [Option.toList_none, List.append_nil] at hv
          exact .pure hv
        | some p =>
          have hv := hfound.trans hadded
          rw [Option.toList_some, ← List.reverse_cons] at hv
          exact .pure hv
    · intro found u hfound
      apply (compoundStatement_leaves (hstatement · u)).bind
      rintro body v ⟨hbody, rfl⟩
      rw [hfound.current] at hbody
      exact .pure ⟨rfl, hfound, hbody⟩

end

theorem blockWithin_leaves (n : Nat) :
    ∀ r (t : SymbolTable), Leaves t (blockWithin n t.current r) (BlockRead t) := by
  induction n with
  | zero => exact fun _ _ => .tooDeep
  | succ n ih => exact fun _ _ => blockOver_leaves ih fun r _ => statementWithin_leaves n r

end PlZero.Grammar
