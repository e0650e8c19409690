/-
  PlZero/Proofs/Quote/Readers.lean
  ================================
  **Every reader gathers leaves that are sited.**  Four rules read leaves.  The rest puts trees
  together out of the trees that it has read, whatever went wrong on the way, and what is
  declared holds the leaves of its tree.
-/
import PlZero.Proofs.Contract.Statements
import PlZero.Proofs.Quote.Gathers
import PlZero.Proofs.Scope.Readers
import PlZero.Proofs.Trace.Readers

namespace PlZero.Grammar

open Reader SymbolTable

variable {tokens : List Token} {recover : KindSet} {maxDepth : Nat}

/-! ### Expressions -/

theorem lvalue_gathers : Gathers tokens [] (lvalue recover) Expression.quotes := by
  apply Gathers.attempt_at
  · exact fun _ => List.nil_subset _
  · intro l s hs hsite
    apply GathersFrom.name
    intro hkind
    apply Gathers.quoting _ hs (hsite.sited (q := .identifier l _) ⟨hkind, rfl⟩ nofun)
    apply Gathers.look
    intro scope
    exact .behind .expect fun _ => .pure (List.Subset.refl _)

section

variable {inside : KindSet → Reader Expression}
  (hinside : ∀ r, Gathers tokens [] (inside r) Expression.quotes)
include hinside

theorem factorOver_gathers : Gathers tokens [] (factorOver inside recover) Expression.quotes := by
  apply Gathers.attempt_at
  · exact fun _ => List.nil_subset _
  · intro l s hs hsite
    apply GathersFrom.look
    split
    · exact lvalue_gathers s hs
    · apply GathersFrom.number
      intro hkind
      apply Gathers.quoting _ hs (hsite.sited (q := .number l _) ⟨hkind, rfl⟩ nofun)
      exact .behind .expect fun _ => .pure (List.Subset.refl _)
    · have hparens : Gathers tokens [] (do
          expect .leftParen
          if ← atLimit then
            report .expressionTooDeep l
            onStream Stream.skipParenthesised
            return .error l
          else
            let e ← deeper (inside (recover ∪ {.rightParen}))
            demand .rightParen recover
            return e) Expression.quotes := by
        apply Gathers.behind .expect
        intro _
        apply Gathers.look
        intro limit
        split
        · apply Gathers.behind .report
          intro _
          apply Gathers.behind (.still (fun _ => .skipParenthesised) .onStream)
          exact fun _ => .pure (List.nil_subset _)
        · apply (hinside _).deeper.bind
          intro e
          exact .behind (.demand (by decide)) fun _ => .pure (by simp)
      exact hparens s hs
    · exact Gathers.unreachable s hs

omit hinside in
theorem joined_gathers {kinds : KindSet} {operator : Kind → Operator} {part : Reader Expression}
    {known : List Quote} {first : Expression} (hfirst : first.quotes ⊆ known)
    (hpart : Gathers tokens [] part Expression.quotes) :
    Gathers tokens known (joined kinds operator part first) Expression.quotes := by
  apply Gathers.whileIn hfirst
  intro left
  apply Gathers.look
  intro sign
  apply Gathers.behind .expect
  intro _
  apply hpart.bind
  intro right
  exact .pure (by simp [Expression.quotes])

theorem termOver_gathers : Gathers tokens [] (termOver inside recover) Expression.quotes := by
  apply Gathers.attempt
  · exact fun _ => List.nil_subset _
  · intro l
    apply (factorOver_gathers hinside).bind
    intro first
    exact joined_gathers (by simp) (factorOver_gathers hinside)

theorem expressionOver_gathers :
    Gathers tokens [] (expressionOver inside recover) Expression.quotes := by
  apply Gathers.attempt
  · exact fun _ => List.nil_subset _
  · intro l
    apply Gathers.behind (.still (fun _ => leadingSign_steady) leadingSign_still)
    intro negative
    apply (termOver_gathers hinside).bind
    intro first
    apply joined_gathers _ (termOver_gathers hinside)
    split
    · exact List.subset_append_left _ _
    · exact List.subset_append_left _ _

theorem conditionOver_gathers :
    Gathers tokens [] (conditionOver inside recover) Expression.quotes := by
  apply Gathers.attempt
  · exact fun _ => List.nil_subset _
  · intro l
    apply (expressionOver_gathers hinside).bind
    intro left
    apply Gathers.look
    intro compared
    split
    · apply Gathers.look
      intro place
      apply Gathers.behind (.still (fun _ => relOp_steady) relOp_still)
      intro op
      apply (expressionOver_gathers hinside).bind
      intro right
      exact .pure (by simp [Expression.quotes])
    · exact .pure (by simp)

end

theorem conditionWithin_gathers (n : Nat) :
    ∀ r, Gathers tokens [] (conditionWithin n r) Expression.quotes := by
  induction n with
  | zero => exact fun _ => .tooDeep
  | succ n ih => exact fun _ => conditionOver_gathers ih

theorem condition_gathers : Gathers tokens [] (condition recover) Expression.quotes :=
  conditionOver_gathers (conditionWithin_gathers maxNesting)

theorem expression_gathers : Gathers tokens [] (expression recover) Expression.quotes :=
  expressionOver_gathers (conditionWithin_gathers maxNesting)

/-! ### Statements -/

/-- A placeholder has no leaves. -/
theorem padded_quotes (l : Location) (n : Nat) (es : List Expression) :
    (padded (.error l) n es).flatMap Expression.quotes = es.flatMap Expression.quotes := by
  simp [padded, Expression.quotes]

theorem assignment_gathers : Gathers tokens [] (assignment recover) Statement.quotes := by
  apply Gathers.attempt
  · exact fun _ => List.nil_subset _
  · intro l
    apply (Gathers.separated (.demand (by decide)) lvalue_gathers).bind
    intro targets
    apply Gathers.look
    intro place
    apply Gathers.behind (.demand (by decide))
    intro _
    apply (Gathers.separated (.demand (by decide)) condition_gathers).bind
    intro values
    apply Gathers.behind (.still (fun _ => .reportUnless) .reportUnless)
    intro _
    apply Gathers.look
    intro filler
    apply Gathers.pure
    rw [Statement.quotes, padded_quotes, padded_quotes]
    simp

theorem readStatement_gathers : Gathers tokens [] (readStatement recover) Statement.quotes := by
  apply Gathers.certainly
  intro l
  apply Gathers.behind .expect
  intro _
  apply lvalue_gathers.bind
  intro target
  exact .pure (by simp [Statement.quotes, Expression.quotes])

theorem writeStatement_gathers : Gathers tokens [] (writeStatement recover) Statement.quotes := by
  apply Gathers.certainly
  intro l
  apply Gathers.behind .expect
  intro _
  apply expression_gathers.bind
  intro value
  exact .pure (by simp [Statement.quotes])

theorem callStatement_gathers : Gathers tokens [] (callStatement recover) Statement.quotes := by
  apply Gathers.certainly
  intro l
  apply Gathers.behind .expect
  intro _
  apply Gathers.behind (.still (fun _ => calledName_steady) calledName_still)
  intro x
  apply Gathers.behind (.still (fun _ => nameAndParens_steady) nameAndParens_still)
  intro _
  exact .look fun _ => .pure (List.nil_subset _)

theorem skipStatement_gathers : Gathers tokens [] (skipStatement recover) Statement.quotes := by
  apply Gathers.certainly
  intro l
  exact .behind .expect fun _ => .pure (List.nil_subset _)

section

variable {statement : KindSet → Reader Statement}
  (hstatement : ∀ r, Gathers tokens [] (statement r) Statement.quotes)
include hstatement

theorem whileStatement_gathers :
    Gathers tokens [] (whileStatement statement recover) Statement.quotes := by
  apply Gathers.certainly
  intro l
  apply Gathers.behind .expect
  intro _
  apply condition_gathers.bind
  intro test
  apply Gathers.behind (.demand (by decide))
  intro _
  apply (hstatement _).bind
  intro body
  exact .pure (by simp [Statement.quotes])

theorem ifStatement_gathers :
    Gathers tokens [] (ifStatement statement recover) Statement.quotes := by
  apply Gathers.certainly
  intro l
  apply Gathers.behind .expect
  intro _
  apply condition_gathers.bind
  intro test
  apply Gathers.behind (.demand (by decide))
  intro _
  apply (hstatement _).bind
  intro thenBranch
  apply Gathers.behind (.demand (by decide))
  intro _
  apply (hstatement _).bind
  intro elseBranch
  exact .pure (by simp [Statement.quotes])

theorem statementList_gathers :
    Gathers tokens [] (statementList statement recover) Statement.quotes := by
  apply Gathers.attempt
  · exact fun _ => List.nil_subset _
  · intro l
    apply (Gathers.separated .expect (hstatement _)).bind
    intro statements
    exact .pure (by simp [Statement.quotes, Statement.allQuotes_eq])

theorem compoundStatement_gathers :
    Gathers tokens [] (compoundStatement statement recover) Statement.quotes := by
  apply Gathers.attempt
  · exact fun _ => List.nil_subset _
  · intro l
    apply Gathers.behind .expect
    intro _
    apply (statementList_gathers hstatement).bind
    intro list
    exact .behind (.demand (by decide)) fun _ => .pure (by simp)

theorem doBranch_gathers : Gathers tokens [] (doBranch statement recover) Branch.quotes := by
  apply Gathers.attempt
  · exact fun _ => List.nil_subset _
  · intro l
    apply condition_gathers.bind
    intro test
    apply Gathers.behind (.demand (by decide))
    intro _
    apply (statementList_gathers hstatement).bind
    intro body
    apply Gathers.look
    intro exits
    split
    · exact .behind .expect fun _ => .pure (by simp [Branch.quotes])
    · exact .pure (by simp [Branch.quotes])

theorem doStatement_gathers :
    Gathers tokens [] (doStatement statement recover) Statement.quotes := by
  apply Gathers.certainly
  intro l
  apply Gathers.behind .expect
  intro _
  apply (Gathers.separated .expect (doBranch_gathers hstatement)).bind
  intro branches
  apply Gathers.behind (.demand (by decide))
  exact fun _ => .pure (by simp [Statement.quotes, Branch.allQuotes_eq])

theorem statementOver_gathers :
    Gathers tokens [] (statementOver statement recover) Statement.quotes := by
  apply Gathers.attempt
  · exact fun _ => List.nil_subset _
  · intro l
    apply Gathers.look
    intro first
    split
    · exact assignment_gathers
    · exact whileStatement_gathers hstatement
    · exact ifStatement_gathers hstatement
    · exact readStatement_gathers
    · exact writeStatement_gathers
    · exact callStatement_gathers
    · exact compoundStatement_gathers hstatement
    · exact skipStatement_gathers
    · exact doStatement_gathers hstatement
    · exact .unreachable

end

theorem statementWithin_gathers (n : Nat) :
    ∀ r, Gathers tokens [] (statementWithin n r) Statement.quotes := by
  induction n with
  | zero => exact fun _ => .tooDeep
  | succ n ih => exact fun _ => statementOver_gathers ih

/-! ### Constants and types -/

theorem constantOver_gathers {operand : KindSet → Reader Constant}
    (hoperand : ∀ r, Gathers tokens [] (operand r) Constant.quotes) :
    Gathers tokens [] (constantOver operand recover) Constant.quotes := by
  apply Gathers.look
  intro scope
  apply Gathers.attempt_at
  · exact fun _ => List.nil_subset _
  · intro l s hs hsite
    apply GathersFrom.look
    split
    · apply GathersFrom.number
      intro hkind
      apply Gathers.quoting _ hs (hsite.sited (q := .constantNumber l _) ⟨hkind, rfl⟩ nofun)
      exact .behind .expect fun _ => .pure (List.Subset.refl _)
    · apply GathersFrom.name
      intro hkind
      apply Gathers.quoting _ hs (hsite.sited (q := .constantName l _) ⟨hkind, rfl⟩ nofun)
      exact .behind .expect fun _ => .pure (List.Subset.refl _)
    · have hnegated : Gathers tokens [] (do
          expect .minus
          if ← atLimit then
            report .expressionTooDeep l
            skipTo recover
            return .error l scope
          else
            return .negated l scope (← deeper (operand recover))) Constant.quotes := by
        apply Gathers.behind .expect
        intro _
        apply Gathers.look
        intro limit
        split
        · apply Gathers.behind .report
          intro _
          apply Gathers.behind (.still (fun _ => .skipTo) .skipTo)
          exact fun _ => .pure (List.nil_subset _)
        · apply (hoperand _).deeper.bind
          intro c
          exact .pure (by simp [Constant.quotes])
      exact hnegated s hs
    · exact Gathers.unreachable s hs

theorem constantWithin_gathers (n : Nat) :
    ∀ r, Gathers tokens [] (constantWithin n r) Constant.quotes := by
  induction n with
  | zero => exact fun _ => .tooDeep
  | succ n ih => exact fun _ => constantOver_gathers ih

theorem constant_gathers : Gathers tokens [] (constant recover) Constant.quotes :=
  constantOver_gathers (constantWithin_gathers maxNesting)

/-- The place of a type identifier is looked up behind its start. -/
theorem typeIdentifier_gathers : Gathers tokens [] (typeIdentifier recover) TypeExpr.quotes := by
  apply Gathers.attempt_at
  · exact fun _ => List.nil_subset _
  · intro l s hs _
    apply GathersFrom.name
    intro hkind
    apply GathersFrom.look
    apply GathersFrom.look
    have hne : s.stream.head.kind ≠ .endOfFile := by
      rw [hkind]
      decide
    apply Gathers.quoting _ hs
      ((hs.site hne).sited (q := .typeName _ _) ⟨hkind, rfl⟩ fun _ => rfl)
    exact .behind .expect fun _ => .pure (List.Subset.refl _)

theorem subrangeType_gathers : Gathers tokens [] (subrangeType recover) TypeExpr.quotes := by
  apply Gathers.attempt
  · exact fun _ => List.nil_subset _
  · intro l
    apply Gathers.behind .expect
    intro _
    apply constant_gathers.bind
    intro lower
    apply Gathers.behind (.demand (by decide))
    intro _
    apply constant_gathers.bind
    intro upper
    apply Gathers.behind (.demand (by decide))
    exact fun _ => .pure (by simp [TypeExpr.quotes])

theorem typeExpr_gathers : Gathers tokens [] (typeExpr recover) TypeExpr.quotes := by
  apply Gathers.attempt
  · exact fun _ => List.nil_subset _
  · intro l
    apply Gathers.look
    intro sign
    split
    · exact typeIdentifier_gathers
    · exact subrangeType_gathers
    · exact .unreachable

/-! ### Definitions -/

theorem definition_gathers {γ : Type} {r : Rule} {sign : Kind} {follow : KindSet}
    {meaning : KindSet → Reader γ} {declare : String → Location → γ → Reader Unit}
    {f : γ → List Quote} (hsign : sign ≠ .endOfFile)
    (hmeaning : ∀ k, Gathers tokens [] (meaning k) f)
    (hdeclare : ∀ x l m, Gathers tokens (f m) (declare x l m) fun _ => []) :
    Gathers tokens [] (definition r sign follow meaning declare recover) fun _ => [] := by
  apply Gathers.attempt
  · exact fun _ => List.nil_subset _
  · intro _
    apply Gathers.behind .name
    intro x
    apply Gathers.look
    intro l
    apply Gathers.behind .expect
    intro _
    apply Gathers.behind (.demand hsign)
    intro _
    apply (hmeaning _).bind
    intro m
    rw [List.append_nil]
    exact (hdeclare x l m).then fun _ => .demand (by decide)

theorem definitionList_gathers {r : Rule} {keyword : Kind} {item : KindSet → Reader Unit}
    (hitem : ∀ k, Gathers tokens [] (item k) fun _ => []) :
    Gathers tokens [] (definitionList r keyword item recover) fun _ => [] := by
  apply Gathers.certainly
  intro _
  apply Gathers.behind .expect
  intro _
  apply Gathers.behind (hitem _)
  exact fun _ => .whileIn (List.nil_subset _) fun _ => hitem _

theorem declareConstant_gathers {x : String} {l : Location} {tree : Constant} :
    Gathers tokens tree.quotes (declareConstant x l tree) fun _ => [] := by
  apply Gathers.symbols
  intro s hs
  cases houtcome : s.symbols.declareConstant x l tree with
  | error node => exact Gathers.of_error (fun _ => ⟨_, _, rfl⟩) s hs
  | ok outcome =>
    apply (GathersFrom.declared hs (Adds.declareConstant (List.Subset.refl _) houtcome)).before
    exact fun _ => .pure (List.nil_subset _)

theorem constantList_gathers : Gathers tokens [] (constantList recover) fun _ => [] :=
  definitionList_gathers fun _ => definition_gathers (by decide) (fun _ => constant_gathers)
    fun _ _ _ => declareConstant_gathers

theorem declareType_gathers {x : String} {l : Location} {meaning : TypeExpr} :
    Gathers tokens meaning.quotes (declareType x l meaning) fun _ => [] := by
  apply Gathers.symbols
  intro s hs
  apply (GathersFrom.declared hs (Adds.declare (m := .type meaning) (List.Subset.refl _))).before
  exact fun _ => .pure (List.nil_subset _)

theorem typeList_gathers : Gathers tokens [] (typeList recover) fun _ => [] :=
  definitionList_gathers fun _ => definition_gathers (by decide) (fun _ => typeExpr_gathers)
    fun _ _ _ => declareType_gathers

theorem declareVariable_gathers {x : String} {l : Location} {base : TypeExpr} :
    Gathers tokens base.quotes (declareVariable x l base) fun _ => [] := by
  apply Gathers.symbols
  intro s hs
  apply (GathersFrom.declared hs
    (Adds.declare (m := .variableOf base) (List.Subset.refl _))).before
  exact fun _ => .pure (List.nil_subset _)

theorem variableList_gathers : Gathers tokens [] (variableList recover) fun _ => [] :=
  definitionList_gathers fun _ => definition_gathers (by decide)
    (fun _ => typeIdentifier_gathers) fun _ _ _ => declareVariable_gathers

/-! ### Procedures and blocks -/

theorem detachedProcedure_gathers {x : String} {l : Location} :
    Gathers tokens [] (detachedProcedure x l) fun _ => [] := by
  intro s hs
  apply GathersFrom.look
  apply (GathersFrom.setSymbols hs (.append (List.nil_subset _))).before
  exact fun _ => .pure (List.nil_subset _)

theorem procedureEntry_gathers : Gathers tokens [] procedureEntry fun _ => [] := by
  apply Gathers.look
  intro l
  apply Gathers.look
  intro named
  split
  · apply Gathers.behind .name
    intro x
    apply Gathers.symbols
    intro s hs
    apply (GathersFrom.declared hs
      (Adds.declare (m := .procedure none) (List.nil_subset _))).before
    intro added
    cases added with
    | some e => exact .pure (List.nil_subset _)
    | none => exact detachedProcedure_gathers
  · exact detachedProcedure_gathers

theorem procedureHeader_gathers : Gathers tokens [] (procedureHeader recover) fun _ => [] := by
  apply Gathers.certainly
  intro _
  apply Gathers.behind .expect
  intro _
  apply Gathers.behind procedureEntry_gathers
  intro e
  apply Gathers.behind (.still (fun _ => nameAndParens_steady) nameAndParens_still)
  exact fun _ => .pure (List.nil_subset _)

section

variable {block : Nat → KindSet → Reader Block}
  (hblock : ∀ scope r, Gathers tokens [] (block scope r) Block.quotes)
include hblock

theorem procedureDefinition_gathers :
    Gathers tokens [] (procedureDefinition block recover) Procedure.quotes := by
  apply Gathers.certainly
  intro l
  apply Gathers.behind procedureHeader_gathers
  intro e
  have hbody : Gathers tokens [] (inScope e.index fun scope => do
      demand .equals Starts.block
      block scope (recover ∪ {.semicolon})) Block.quotes := by
    apply Gathers.inScope
    intro scope
    exact .behind (.demand (by decide)) fun _ => hblock _ _
  apply hbody.bind
  intro b
  exact .behind (.demand (by decide)) fun _ => .pure (by simp [Procedure.quotes])

theorem declaration_gathers : Gathers tokens [] (declaration block recover)
    fun p => p.toList.flatMap Procedure.quotes := by
  apply Gathers.certainly
  intro _
  apply Gathers.look
  intro first
  split
  · exact .behind constantList_gathers fun _ => .pure (List.nil_subset _)
  · exact .behind typeList_gathers fun _ => .pure (List.nil_subset _)
  · exact .behind variableList_gathers fun _ => .pure (List.nil_subset _)
  · exact (procedureDefinition_gathers hblock).bind fun p => .pure (by simp)
  · exact .unreachable

theorem blockOver_gathers {statement : KindSet → Reader Statement} {scope : Nat}
    (hstatement : ∀ r, Gathers tokens [] (statement r) Statement.quotes) :
    Gathers tokens [] (blockOver statement block scope recover) Block.quotes := by
  apply Gathers.attempt
  · exact fun _ => List.nil_subset _
  · intro l
    apply Gathers.bind (f := fun found : List Procedure => found.flatMap Procedure.quotes)
    · apply Gathers.whileIn (List.nil_subset _)
      intro found
      apply (declaration_gathers hblock).bind
      intro added
      cases added with
      | none => exact .pure (by simp)
      | some p => exact .pure (by simp)
    · intro found
      apply (compoundStatement_gathers hstatement).bind
      intro body
      apply Gathers.pure
      intro q hq
      simp only [Block.quotes, Procedure.allQuotes_eq, List.mem_append, List.mem_flatMap,
        List.mem_reverse] at hq ⊢
      rcases hq with hq | hq
      · exact .inr (.inl hq)
      · exact .inl hq

end

theorem blockWithin_gathers (n : Nat) :
    ∀ scope r, Gathers tokens [] (blockWithin n scope r) Block.quotes := by
  induction n with
  | zero => exact fun _ _ => .tooDeep
  | succ n ih => exact fun _ _ => blockOver_gathers ih (statementWithin_gathers n)

theorem wholeProgram_gathers : Gathers tokens [] (wholeProgram maxDepth) Program.quotes := by
  have hblock : Gathers tokens [] (inScope mainIndex fun scope =>
      attempt .program {.endOfFile} (fun l => .mk l scope [] (.error l)) fun _ =>
        blockWithin maxDepth scope {.endOfFile}) Block.quotes := by
    apply Gathers.inScope
    intro scope
    apply Gathers.attempt
    · exact fun _ => List.nil_subset _
    · exact fun _ => blockWithin_gathers maxDepth _ _
  have hprogram : Gathers tokens [] (program maxDepth {.endOfFile}) Program.quotes :=
    hblock.bind fun b => .pure (by simp [Program.quotes])
  apply Gathers.behind .note
  intro _
  apply hprogram.bind
  intro p
  apply Gathers.look
  intro errors
  exact .behind .note fun _ => .pure (by simp)

end PlZero.Grammar
