/-
  PlZero/Proofs/Trace/Readers.lean
  ================================
  **Every reader is steady.**  Whatever the tokens are and whatever goes wrong, a reader that
  returns has closed every rule that it opened, and has let go of no token but by matching or
  skipping it.  Most readers take only tokens of kinds that they name; those that take the
  head token whatever it is stand behind a look at it.
-/
import PlZero.Grammar.Blocks
import PlZero.Proofs.Reading.Steady

namespace PlZero.Grammar

open Reader

variable {recover : KindSet} {s : ReaderState} {maxDepth : Nat}

/-! ### Taking the head token -/

/-- A token whose kind belongs to a set without the end of the input is matched. -/
theorem expect_head_steady {kinds : KindSet} (hkinds : .endOfFile ∉ kinds)
    (hhead : s.stream.head.kind ∈ kinds) : Steady (expect s.stream.head.kind) s := by
  apply Steady.expect
  intro hend
  exact hkinds (hend ▸ hhead)

/-! ### Expressions -/

theorem lvalue_steady : Steady (lvalue recover) s := by
  apply Steady.attempt
  intro l t _
  apply Steady.name.bind
  intro x t
  apply Steady.look
  exact (Steady.expect (by decide)).bind fun _ _ => .pure

theorem joined_steady {kinds : KindSet} {operator : Kind → Operator} {part : Reader Expression}
    {first : Expression} (hkinds : .endOfFile ∉ kinds) (hpart : ∀ t, Steady part t) :
    Steady (joined kinds operator part first) s := by
  apply Steady.whileIn
  intro left t hhead
  apply Steady.look
  apply (expect_head_steady hkinds hhead).bind
  intro _ u
  exact (hpart u).bind fun _ _ => .pure

theorem leadingSign_steady : Steady leadingSign s := by
  apply Steady.look
  split
  · rename_i hsign
    exact (expect_head_steady (by decide) hsign).bind fun _ _ => .pure
  · exact .pure

theorem relOp_steady : Steady (relOp recover) s := by
  apply Steady.certainly
  intro l t hhead
  apply Steady.look
  exact (expect_head_steady (by decide) hhead).bind fun _ _ => .pure

section

variable {inside : KindSet → Reader Expression} (hinside : ∀ r t, Steady (inside r) t)
include hinside

theorem factorOver_steady : Steady (factorOver inside recover) s := by
  apply Steady.attempt
  intro l t _
  apply Steady.look
  split
  · exact lvalue_steady
  · apply Steady.number.bind
    intro value u
    exact (Steady.expect (by decide)).bind fun _ _ => .pure
  · apply (Steady.expect (by decide)).bind
    intro _ u
    apply Steady.look
    split
    · apply Steady.report.bind
      intro _ v
      exact Steady.skipParenthesised.bind fun _ _ => .pure
    · apply (Steady.deeper (hinside _)).bind
      intro e v
      exact (Steady.demand (by decide)).bind fun _ _ => .pure
  · exact .unreachable

theorem termOver_steady : Steady (termOver inside recover) s := by
  apply Steady.attempt
  intro l t _
  apply (factorOver_steady hinside).bind
  intro first u
  exact joined_steady (by decide) fun _ => factorOver_steady hinside

theorem expressionOver_steady : Steady (expressionOver inside recover) s := by
  apply Steady.attempt
  intro l t _
  apply leadingSign_steady.bind
  intro negative u
  apply (termOver_steady hinside).bind
  intro first v
  exact joined_steady (by decide) fun _ => termOver_steady hinside

theorem conditionOver_steady : Steady (conditionOver inside recover) s := by
  apply Steady.attempt
  intro l t _
  apply (expressionOver_steady hinside).bind
  intro left u
  apply Steady.look
  split
  · apply Steady.look
    apply relOp_steady.bind
    intro op v
    exact (expressionOver_steady hinside).bind fun _ _ => .pure
  · exact .pure

end

theorem conditionWithin_steady (n : Nat) : ∀ r t, Steady (conditionWithin n r) t := by
  induction n with
  | zero => exact fun _ _ => .tooDeep
  | succ n ih => exact fun _ _ => conditionOver_steady ih

theorem condition_steady : Steady (condition recover) s :=
  conditionOver_steady (conditionWithin_steady maxNesting)

theorem expression_steady : Steady (expression recover) s :=
  expressionOver_steady (conditionWithin_steady maxNesting)

/-! ### Constants and types -/

theorem constantOver_steady {operand : KindSet → Reader Constant}
    (hoperand : ∀ r t, Steady (operand r) t) : Steady (constantOver operand recover) s := by
  apply Steady.look
  apply Steady.attempt
  intro l t _
  apply Steady.look
  split
  · apply Steady.number.bind
    intro value u
    exact (Steady.expect (by decide)).bind fun _ _ => .pure
  · apply Steady.name.bind
    intro x u
    exact (Steady.expect (by decide)).bind fun _ _ => .pure
  · apply (Steady.expect (by decide)).bind
    intro _ u
    apply Steady.look
    split
    · apply Steady.report.bind
      intro _ v
      exact Steady.skipTo.bind fun _ _ => .pure
    · exact (Steady.deeper (hoperand _)).bind fun _ _ => .pure
  · exact .unreachable

theorem constantWithin_steady (n : Nat) : ∀ r t, Steady (constantWithin n r) t := by
  induction n with
  | zero => exact fun _ _ => .tooDeep
  | succ n ih => exact fun _ _ => constantOver_steady ih

theorem constant_steady : Steady (constant recover) s :=
  constantOver_steady (constantWithin_steady maxNesting)

theorem typeIdentifier_steady : Steady (typeIdentifier recover) s := by
  apply Steady.attempt
  intro l t _
  apply Steady.name.bind
  intro x u
  apply Steady.look
  apply Steady.look
  exact (Steady.expect (by decide)).bind fun _ _ => .pure

theorem subrangeType_steady : Steady (subrangeType recover) s := by
  apply Steady.attempt
  intro l t _
  apply (Steady.expect (by decide)).bind
  intro _ u
  apply constant_steady.bind
  intro lower v
  apply (Steady.demand (by decide)).bind
  intro _ w
  apply constant_steady.bind
  intro upper x
  exact (Steady.demand (by decide)).bind fun _ _ => .pure

theorem typeExpr_steady : Steady (typeExpr recover) s := by
  apply Steady.attempt
  intro l t _
  apply Steady.look
  split
  · exact typeIdentifier_steady
  · exact subrangeType_steady
  · exact .unreachable

/-! ### Definitions -/

theorem definition_steady {γ : Type} {r : Rule} {sign : Kind} {follow : KindSet}
    {meaning : KindSet → Reader γ} {declare : String → Location → γ → Reader Unit}
    (hsign : sign ≠ .endOfFile) (hmeaning : ∀ k t, Steady (meaning k) t)
    (hdeclare : ∀ x l m t, Steady (declare x l m) t) :
    Steady (definition r sign follow meaning declare recover) s := by
  apply Steady.attempt
  intro l t _
  apply Steady.name.bind
  intro x u
  apply Steady.look
  apply (Steady.expect (by decide)).bind
  intro _ v
  apply (Steady.demand hsign).bind
  intro _ w
  apply (hmeaning _ w).bind
  intro m y
  exact (hdeclare _ _ _ y).bind fun _ _ => .demand (by decide)

theorem definitionList_steady {r : Rule} {keyword : Kind} {item : KindSet → Reader Unit}
    (hkeyword : keyword ≠ .endOfFile) (hitem : ∀ k t, Steady (item k) t) :
    Steady (definitionList r keyword item recover) s := by
  apply Steady.certainly
  intro l t _
  apply (Steady.expect hkeyword).bind
  intro _ u
  apply (hitem _ u).bind
  intro _ v
  exact .whileIn fun _ w _ => hitem _ w

theorem declareConstant_steady {x : String} {l : Location} {tree : Constant} :
    Steady (declareConstant x l tree) s := by
  apply Steady.look
  split
  · exact Steady.declared.bind fun _ _ => .pure
  · exact .of_error ⟨_, _, rfl⟩

theorem declareType_steady {x : String} {l : Location} {meaning : TypeExpr} :
    Steady (declareType x l meaning) s :=
  .look (Steady.declared.bind fun _ _ => .pure)

theorem declareVariable_steady {x : String} {l : Location} {base : TypeExpr} :
    Steady (declareVariable x l base) s :=
  .look (Steady.declared.bind fun _ _ => .pure)

theorem constantList_steady : Steady (constantList recover) s :=
  definitionList_steady (by decide) fun _ _ =>
    definition_steady (by decide) (fun _ _ => constant_steady) fun _ _ _ _ => declareConstant_steady

theorem typeList_steady : Steady (typeList recover) s :=
  definitionList_steady (by decide) fun _ _ =>
    definition_steady (by decide) (fun _ _ => typeExpr_steady) fun _ _ _ _ => declareType_steady

theorem variableList_steady : Steady (variableList recover) s :=
  definitionList_steady (by decide) fun _ _ =>
    definition_steady (by decide) (fun _ _ => typeIdentifier_steady)
      fun _ _ _ _ => declareVariable_steady

/-! ### Statements -/

theorem assignment_steady : Steady (assignment recover) s := by
  apply Steady.attempt
  intro l t _
  apply (Steady.separated (fun _ => .demand (by decide)) fun _ => lvalue_steady).bind
  intro targets u
  apply Steady.look
  apply (Steady.demand (by decide)).bind
  intro _ v
  apply (Steady.separated (fun _ => .demand (by decide)) fun _ => condition_steady).bind
  intro values w
  apply Steady.reportUnless.bind
  intro _ x
  exact .look .pure

theorem readStatement_steady : Steady (readStatement recover) s := by
  apply Steady.certainly
  intro l t _
  apply (Steady.expect (by decide)).bind
  intro _ u
  exact lvalue_steady.bind fun _ _ => .pure

theorem writeStatement_steady : Steady (writeStatement recover) s := by
  apply Steady.certainly
  intro l t _
  apply (Steady.expect (by decide)).bind
  intro _ u
  exact expression_steady.bind fun _ _ => .pure

theorem nameAndParens_steady : Steady (nameAndParens recover) s := by
  apply (Steady.demand (by decide)).bind
  intro _ t
  exact (Steady.demand (by decide)).bind fun _ _ => .demand (by decide)

theorem calledName_steady : Steady calledName s := by
  apply Steady.look
  split
  · exact .name
  · exact .pure

theorem callStatement_steady : Steady (callStatement recover) s := by
  apply Steady.certainly
  intro l t _
  apply (Steady.expect (by decide)).bind
  intro _ u
  apply calledName_steady.bind
  intro x v
  apply nameAndParens_steady.bind
  intro _ w
  exact .look .pure

theorem skipStatement_steady : Steady (skipStatement recover) s := by
  apply Steady.certainly
  intro l t _
  exact (Steady.expect (by decide)).bind fun _ _ => .pure

section

variable {statement : KindSet → Reader Statement} (hstatement : ∀ r t, Steady (statement r) t)
include hstatement

theorem whileStatement_steady : Steady (whileStatement statement recover) s := by
  apply Steady.certainly
  intro l t _
  apply (Steady.expect (by decide)).bind
  intro _ u
  apply condition_steady.bind
  intro test v
  apply (Steady.demand (by decide)).bind
  intro _ w
  exact (hstatement _ w).bind fun _ _ => .pure

theorem ifStatement_steady : Steady (ifStatement statement recover) s := by
  apply Steady.certainly
  intro l t _
  apply (Steady.expect (by decide)).bind
  intro _ u
  apply condition_steady.bind
  intro test v
  apply (Steady.demand (by decide)).bind
  intro _ w
  apply (hstatement _ w).bind
  intro thenBranch x
  apply (Steady.demand (by decide)).bind
  intro _ y
  exact (hstatement _ y).bind fun _ _ => .pure

theorem statementList_steady : Steady (statementList statement recover) s := by
  apply Steady.attempt
  intro l t _
  exact (Steady.separated (fun _ => .expect (by decide)) (hstatement _)).bind fun _ _ => .pure

theorem compoundStatement_steady : Steady (compoundStatement statement recover) s := by
  apply Steady.attempt
  intro l t _
  apply (Steady.expect (by decide)).bind
  intro _ u
  apply (statementList_steady hstatement).bind
  intro list v
  exact (Steady.demand (by decide)).bind fun _ _ => .pure

theorem doBranch_steady : Steady (doBranch statement recover) s := by
  apply Steady.attempt
  intro l t _
  apply condition_steady.bind
  intro test u
  apply (Steady.demand (by decide)).bind
  intro _ v
  apply (statementList_steady hstatement).bind
  intro body w
  apply Steady.look
  split
  · exact (Steady.expect (by decide)).bind fun _ _ => .pure
  · exact .pure

theorem doStatement_steady : Steady (doStatement statement recover) s := by
  apply Steady.certainly
  intro l t _
  apply (Steady.expect (by decide)).bind
  intro _ u
  apply (Steady.separated (fun _ => .expect (by decide)) fun _ => doBranch_steady hstatement).bind
  intro branches v
  exact (Steady.demand (by decide)).bind fun _ _ => .pure

theorem statementOver_steady : Steady (statementOver statement recover) s := by
  apply Steady.attempt
  intro l t _
  apply Steady.look
  split
  · exact assignment_steady
  · exact whileStatement_steady hstatement
  · exact ifStatement_steady hstatement
  · exact readStatement_steady
  · exact writeStatement_steady
  · exact callStatement_steady
  · exact compoundStatement_steady hstatement
  · exact skipStatement_steady
  · exact doStatement_steady hstatement
  · exact .unreachable

end

theorem statementWithin_steady (n : Nat) : ∀ r t, Steady (statementWithin n r) t := by
  induction n with
  | zero => exact fun _ _ => .tooDeep
  | succ n ih => exact fun _ _ => statementOver_steady ih

/-! ### Procedures, blocks and programs -/

theorem detachedProcedure_steady {x : String} {l : Location} :
    Steady (detachedProcedure x l) s :=
  .look (Steady.setSymbols.bind fun _ _ => .pure)

theorem procedureEntry_steady : Steady procedureEntry s := by
  apply Steady.look
  apply Steady.look
  split
  · apply Steady.name.bind
    intro x t
    apply Steady.look
    apply Steady.declared.bind
    intro added u
    cases added with
    | some entry => exact .pure
    | none => exact detachedProcedure_steady
  · exact detachedProcedure_steady

theorem procedureHeader_steady : Steady (procedureHeader recover) s := by
  apply Steady.certainly
  intro l t _
  apply (Steady.expect (by decide)).bind
  intro _ u
  apply procedureEntry_steady.bind
  intro entry v
  exact nameAndParens_steady.bind fun _ _ => .pure

section

variable {block : Nat → KindSet → Reader Block} (hblock : ∀ n r t, Steady (block n r) t)
include hblock

theorem procedureDefinition_steady : Steady (procedureDefinition block recover) s := by
  apply Steady.certainly
  intro l t _
  apply procedureHeader_steady.bind
  intro entry u
  apply Steady.bind
  · apply Steady.inScope
    intro scope v
    exact (Steady.demand (by decide)).bind fun _ w => hblock _ _ w
  · intro body v
    exact (Steady.demand (by decide)).bind fun _ _ => .pure

theorem declaration_steady : Steady (declaration block recover) s := by
  apply Steady.certainly
  intro l t _
  apply Steady.look
  split
  · exact constantList_steady.bind fun _ _ => .pure
  · exact typeList_steady.bind fun _ _ => .pure
  · exact variableList_steady.bind fun _ _ => .pure
  · exact (procedureDefinition_steady hblock).bind fun _ _ => .pure
  · exact .unreachable

theorem blockOver_steady {statement : KindSet → Reader Statement} {scope : Nat}
    (hstatement : ∀ r t, Steady (statement r) t) :
    Steady (blockOver statement block scope recover) s := by
  apply Steady.attempt
  intro l t _
  apply Steady.bind
  · apply Steady.whileIn
    intro found u _
    apply (declaration_steady hblock).bind
    intro read v
    cases read with
    | some procedure => exact .pure
    | none => exact .pure
  · intro found u
    exact (compoundStatement_steady hstatement).bind fun _ _ => .pure

end

theorem blockWithin_steady (n : Nat) : ∀ scope r t, Steady (blockWithin n scope r) t := by
  induction n with
  | zero => exact fun _ _ _ => .tooDeep
  | succ n ih => exact fun _ _ _ => blockOver_steady ih (statementWithin_steady n)

theorem program_steady : Steady (program maxDepth recover) s := by
  apply Steady.bind
  · apply Steady.inScope
    intro scope t
    exact .attempt fun _ _ _ => blockWithin_steady _ _ _ _
  · intro block t
    exact .pure

end PlZero.Grammar
