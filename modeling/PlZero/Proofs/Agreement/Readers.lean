/-
  PlZero/Proofs/Agreement/Readers.lean
  ====================================
  **Every rule of the grammar agrees with itself** on a stream that is scanned on demand and
  on one that was scanned before.  A rule looks at the head token, the table and the nesting,
  which are the same in both, and it reports at the head or at a token that it took before.
-/
import PlZero.Grammar.Blocks
import PlZero.Proofs.Agreement.Rules

namespace PlZero.Grammar

open Reader ReaderState

variable {L : Location → Prop} {recover : KindSet} {maxDepth : Nat}

/-! ### Expressions -/

theorem lvalue_agrees : Agrees (Alike L) (lvalue recover) := by
  apply attempt_agrees
  intro l
  apply name_agrees.bind
  intro x
  apply currentScope_agrees
  intro scope
  exact expect_agrees.bind fun _ => .pure

section

variable {inside : KindSet → Reader Expression}
  (hinside : ∀ L r, Agrees (Alike L) (inside r))
include hinside

theorem factorOver_agrees : Agrees (Alike L) (factorOver inside recover) := by
  apply attempt_agrees
  intro l
  apply head_agrees
  intro first
  split
  · exact lvalue_agrees
  · exact number_agrees.bind fun _ => expect_agrees.bind fun _ => .pure
  · apply expect_agrees.bind
    intro _
    apply atLimit_agrees
    intro limit
    split
    · apply (report_agrees (.inr rfl)).bind
      intro _
      exact (onStream_agrees Stream.skipParenthesised_agrees).bind fun _ => .pure
    · apply (deeper_agrees (hinside _ _)).bind
      intro e
      exact demand_agrees.bind fun _ => .pure
  · exact unreachable_agrees

omit hinside in
theorem joined_agrees {kinds : KindSet} {operator : Kind → Operator} {part : Reader Expression}
    (hpart : Agrees (Alike L) part) (first : Expression) :
    Agrees (Alike L) (joined kinds operator part first) := by
  apply whileIn_agrees
  intro left
  apply head_agrees
  intro sign
  exact expect_agrees.bind fun _ => hpart.bind fun _ => .pure

theorem termOver_agrees : Agrees (Alike L) (termOver inside recover) := by
  apply attempt_agrees
  intro l
  apply (factorOver_agrees hinside).bind
  exact joined_agrees (factorOver_agrees hinside)

omit hinside in
theorem leadingSign_agrees : Agrees (Alike L) leadingSign := by
  apply head_agrees
  intro sign
  split
  · exact expect_agrees.bind fun _ => .pure
  · exact .pure

theorem expressionOver_agrees : Agrees (Alike L) (expressionOver inside recover) := by
  apply attempt_agrees
  intro l
  apply leadingSign_agrees.bind
  intro negative
  apply (termOver_agrees hinside).bind
  intro first
  exact joined_agrees (termOver_agrees hinside) _

omit hinside in
theorem relOp_agrees : Agrees (Alike L) (relOp recover) := by
  apply certainly_agrees
  intro l
  apply head_agrees
  intro sign
  exact expect_agrees.bind fun _ => .pure

theorem conditionOver_agrees : Agrees (Alike L) (conditionOver inside recover) := by
  apply attempt_agrees
  intro l
  apply (expressionOver_agrees hinside).bind
  intro left
  apply headIn_agrees
  intro compared
  split
  · apply location_agrees
    intro place
    exact relOp_agrees.bind fun _ => (expressionOver_agrees hinside).bind fun _ => .pure
  · exact .pure

end

theorem conditionWithin_agrees (n : Nat) :
    ∀ L r, Agrees (Alike L) (conditionWithin n r) := by
  induction n with
  | zero => exact fun _ _ => tooDeep_agrees
  | succ n ih => exact fun _ _ => conditionOver_agrees ih

theorem condition_agrees : Agrees (Alike L) (condition recover) :=
  conditionOver_agrees (conditionWithin_agrees maxNesting)

theorem expression_agrees : Agrees (Alike L) (expression recover) :=
  expressionOver_agrees (conditionWithin_agrees maxNesting)

/-! ### Statements -/

theorem assignment_agrees : Agrees (Alike L) (assignment recover) := by
  apply attempt_agrees
  intro l
  apply (separated_agrees demand_agrees lvalue_agrees).bind
  intro targets
  apply location_agrees
  intro place
  apply demand_agrees.bind
  intro _
  apply (separated_agrees demand_agrees condition_agrees).bind
  intro values
  apply (reportUnless_agrees (.inr rfl)).bind
  intro _
  apply location_agrees
  intro filler
  exact .pure

theorem readStatement_agrees : Agrees (Alike L) (readStatement recover) := by
  apply certainly_agrees
  intro l
  exact expect_agrees.bind fun _ => lvalue_agrees.bind fun _ => .pure

theorem writeStatement_agrees : Agrees (Alike L) (writeStatement recover) := by
  apply certainly_agrees
  intro l
  exact expect_agrees.bind fun _ => expression_agrees.bind fun _ => .pure

theorem nameAndParens_agrees : Agrees (Alike L) (nameAndParens recover) :=
  demand_agrees.bind fun _ => demand_agrees.bind fun _ => demand_agrees

theorem calledName_agrees : Agrees (Alike L) calledName := by
  apply headIs_agrees
  intro named
  split
  · exact name_agrees
  · exact .pure

theorem callStatement_agrees : Agrees (Alike L) (callStatement recover) := by
  apply certainly_agrees
  intro l
  apply expect_agrees.bind
  intro _
  apply calledName_agrees.bind
  intro x
  apply nameAndParens_agrees.bind
  intro _
  exact currentScope_agrees fun _ => .pure

theorem skipStatement_agrees : Agrees (Alike L) (skipStatement recover) := by
  apply certainly_agrees
  intro l
  exact expect_agrees.bind fun _ => .pure

section

variable {statement : KindSet → Reader Statement}
  (hstatement : ∀ L r, Agrees (Alike L) (statement r))
include hstatement

theorem whileStatement_agrees : Agrees (Alike L) (whileStatement statement recover) := by
  apply certainly_agrees
  intro l
  apply expect_agrees.bind
  intro _
  apply condition_agrees.bind
  intro test
  apply demand_agrees.bind
  intro _
  exact (hstatement _ _).bind fun _ => .pure

theorem ifStatement_agrees : Agrees (Alike L) (ifStatement statement recover) := by
  apply certainly_agrees
  intro l
  apply expect_agrees.bind
  intro _
  apply condition_agrees.bind
  intro test
  apply demand_agrees.bind
  intro _
  apply (hstatement _ _).bind
  intro thenBranch
  apply demand_agrees.bind
  intro _
  exact (hstatement _ _).bind fun _ => .pure

theorem statementList_agrees : Agrees (Alike L) (statementList statement recover) := by
  apply attempt_agrees
  intro l
  exact (separated_agrees expect_agrees (hstatement _ _)).bind fun _ => .pure

theorem compoundStatement_agrees : Agrees (Alike L) (compoundStatement statement recover) := by
  apply attempt_agrees
  intro l
  apply expect_agrees.bind
  intro _
  apply (statementList_agrees hstatement).bind
  intro list
  exact demand_agrees.bind fun _ => .pure

theorem doBranch_agrees : Agrees (Alike L) (doBranch statement recover) := by
  apply attempt_agrees
  intro l
  apply condition_agrees.bind
  intro test
  apply demand_agrees.bind
  intro _
  apply (statementList_agrees hstatement).bind
  intro body
  apply headIs_agrees
  intro exits
  split
  · exact expect_agrees.bind fun _ => .pure
  · exact .pure

theorem doStatement_agrees : Agrees (Alike L) (doStatement statement recover) := by
  apply certainly_agrees
  intro l
  apply expect_agrees.bind
  intro _
  apply (separated_agrees expect_agrees (doBranch_agrees hstatement)).bind
  intro branches
  exact demand_agrees.bind fun _ => .pure

theorem statementOver_agrees : Agrees (Alike L) (statementOver statement recover) := by
  apply attempt_agrees
  intro l
  apply head_agrees
  intro first
  split
  · exact assignment_agrees
  · exact whileStatement_agrees hstatement
  · exact ifStatement_agrees hstatement
  · exact readStatement_agrees
  · exact writeStatement_agrees
  · exact callStatement_agrees
  · exact compoundStatement_agrees hstatement
  · exact skipStatement_agrees
  · exact doStatement_agrees hstatement
  · exact unreachable_agrees

end

theorem statementWithin_agrees (n : Nat) :
    ∀ L r, Agrees (Alike L) (statementWithin n r) := by
  induction n with
  | zero => exact fun _ _ => tooDeep_agrees
  | succ n ih => exact fun _ _ => statementOver_agrees ih

/-! ### Constants and types -/

theorem constantOver_agrees {operand : KindSet → Reader Constant}
    (hoperand : ∀ L r, Agrees (Alike L) (operand r)) :
    Agrees (Alike L) (constantOver operand recover) := by
  apply currentScope_agrees
  intro scope
  apply attempt_agrees
  intro l
  apply head_agrees
  intro first
  split
  · exact number_agrees.bind fun _ => expect_agrees.bind fun _ => .pure
  · exact name_agrees.bind fun _ => expect_agrees.bind fun _ => .pure
  · apply expect_agrees.bind
    intro _
    apply atLimit_agrees
    intro limit
    split
    · apply (report_agrees (.inr rfl)).bind
      intro _
      exact skipTo_agrees.bind fun _ => .pure
    · exact (deeper_agrees (hoperand _ _)).bind fun _ => .pure
  · exact unreachable_agrees

theorem constantWithin_agrees (n : Nat) :
    ∀ L r, Agrees (Alike L) (constantWithin n r) := by
  induction n with
  | zero => exact fun _ _ => tooDeep_agrees
  | succ n ih => exact fun _ _ => constantOver_agrees ih

theorem constant_agrees : Agrees (Alike L) (constant recover) :=
  constantOver_agrees (constantWithin_agrees maxNesting)

theorem typeIdentifier_agrees : Agrees (Alike L) (typeIdentifier recover) := by
  apply attempt_agrees
  intro l
  apply name_agrees.bind
  intro x
  apply currentScope_agrees
  intro scope
  apply location_agrees
  intro place
  exact expect_agrees.bind fun _ => .pure

theorem subrangeType_agrees : Agrees (Alike L) (subrangeType recover) := by
  apply attempt_agrees
  intro l
  apply expect_agrees.bind
  intro _
  apply constant_agrees.bind
  intro lower
  apply demand_agrees.bind
  intro _
  apply constant_agrees.bind
  intro upper
  exact demand_agrees.bind fun _ => .pure

theorem typeExpr_agrees : Agrees (Alike L) (typeExpr recover) := by
  apply attempt_agrees
  intro l
  apply head_agrees
  intro first
  split
  · exact typeIdentifier_agrees
  · exact subrangeType_agrees
  · exact unreachable_agrees

/-! ### Definitions -/

theorem definition_agrees {γ : Type} {r : Rule} {sign : Kind} {follow : KindSet}
    {meaning : KindSet → Reader γ} {declare : String → Location → γ → Reader Unit}
    (hmeaning : ∀ L k, Agrees (Alike L) (meaning k))
    (hdeclare : ∀ {L : Location → Prop} x l m, L l → Agrees (Alike L) (declare x l m)) :
    Agrees (Alike L) (definition r sign follow meaning declare recover) := by
  apply attempt_agrees
  intro _
  apply name_agrees.bind
  intro x
  apply location_agrees
  intro l
  apply expect_agrees.bind
  intro _
  apply demand_agrees.bind
  intro _
  apply (hmeaning _ _).bind
  intro m
  exact (hdeclare x l m (.inr rfl)).bind fun _ => demand_agrees

theorem definitionList_agrees {r : Rule} {keyword : Kind} {item : KindSet → Reader Unit}
    (hitem : ∀ L k, Agrees (Alike L) (item k)) :
    Agrees (Alike L) (definitionList r keyword item recover) := by
  apply certainly_agrees
  intro _
  apply expect_agrees.bind
  intro _
  apply (hitem _ _).bind
  exact whileIn_agrees fun _ => hitem _ _

theorem declareConstant_agrees {x : String} {l : Location} {tree : Constant} (hl : L l) :
    Agrees (Alike L) (declareConstant x l tree) := by
  apply symbols_agrees
  intro t
  cases t.declareConstant x l tree with
  | ok outcome => exact (declared_agrees hl).bind fun _ => .pure
  | error node =>
    apply Agrees.never
    intro s a u h
    cases h

theorem declareType_agrees {x : String} {l : Location} {meaning : TypeExpr} (hl : L l) :
    Agrees (Alike L) (declareType x l meaning) :=
  symbols_agrees fun _ => (declared_agrees hl).bind fun _ => .pure

theorem declareVariable_agrees {x : String} {l : Location} {base : TypeExpr} (hl : L l) :
    Agrees (Alike L) (declareVariable x l base) :=
  symbols_agrees fun _ => (declared_agrees hl).bind fun _ => .pure

theorem constantList_agrees : Agrees (Alike L) (constantList recover) :=
  definitionList_agrees fun _ _ =>
    definition_agrees (fun _ _ => constant_agrees) fun _ _ _ => declareConstant_agrees

theorem typeList_agrees : Agrees (Alike L) (typeList recover) :=
  definitionList_agrees fun _ _ =>
    definition_agrees (fun _ _ => typeExpr_agrees) fun _ _ _ => declareType_agrees

theorem variableList_agrees : Agrees (Alike L) (variableList recover) :=
  definitionList_agrees fun _ _ =>
    definition_agrees (fun _ _ => typeIdentifier_agrees) fun _ _ _ => declareVariable_agrees

/-! ### Procedures, blocks and programs -/

theorem detachedProcedure_agrees {x : String} {l : Location} :
    Agrees (Alike L) (detachedProcedure x l) := by
  apply look_agrees
  · intro s s' _ hsymbols _
    rw [hsymbols]
  · intro added
    exact setSymbols_agrees.bind fun _ => .pure

theorem procedureEntry_agrees : Agrees (Alike L) procedureEntry := by
  apply location_agrees
  intro l
  apply headIs_agrees
  intro named
  split
  · apply name_agrees.bind
    intro x
    apply symbols_agrees
    intro t
    apply (declared_agrees (.inr rfl)).bind
    intro added
    cases added with
    | some entry => exact .pure
    | none => exact detachedProcedure_agrees
  · exact detachedProcedure_agrees

theorem procedureHeader_agrees : Agrees (Alike L) (procedureHeader recover) := by
  apply certainly_agrees
  intro _
  apply expect_agrees.bind
  intro _
  apply procedureEntry_agrees.bind
  intro entry
  exact nameAndParens_agrees.bind fun _ => .pure

section

variable {block : Nat → KindSet → Reader Block}
  (hblock : ∀ L scope r, Agrees (Alike L) (block scope r))
include hblock

theorem procedureDefinition_agrees : Agrees (Alike L) (procedureDefinition block recover) := by
  apply certainly_agrees
  intro l
  apply procedureHeader_agrees.bind
  intro entry
  apply Agrees.bind
  · apply inScope_agrees
    intro scope
    exact demand_agrees.bind fun _ => hblock _ _ _
  · intro body
    exact demand_agrees.bind fun _ => .pure

theorem declaration_agrees : Agrees (Alike L) (declaration block recover) := by
  apply certainly_agrees
  intro _
  apply head_agrees
  intro first
  split
  · exact constantList_agrees.bind fun _ => .pure
  · exact typeList_agrees.bind fun _ => .pure
  · exact variableList_agrees.bind fun _ => .pure
  · exact (procedureDefinition_agrees hblock).bind fun _ => .pure
  · exact unreachable_agrees

theorem blockOver_agrees {statement : KindSet → Reader Statement} {scope : Nat}
    (hstatement : ∀ L r, Agrees (Alike L) (statement r)) :
    Agrees (Alike L) (blockOver statement block scope recover) := by
  apply attempt_agrees
  intro l
  apply Agrees.bind
  · apply whileIn_agrees
    intro found
    apply (declaration_agrees hblock).bind
    intro added
    cases added with
    | some procedure => exact .pure
    | none => exact .pure
  · intro found
    exact (compoundStatement_agrees hstatement).bind fun _ => .pure

end

theorem blockWithin_agrees (n : Nat) :
    ∀ L scope r, Agrees (Alike L) (blockWithin n scope r) := by
  induction n with
  | zero => exact fun _ _ _ => tooDeep_agrees
  | succ n ih => exact fun _ _ _ => blockOver_agrees ih (statementWithin_agrees n)

theorem program_agrees : Agrees (Alike L) (program maxDepth recover) := by
  apply Agrees.bind
  · apply inScope_agrees
    intro scope
    apply attempt_agrees
    intro l
    exact blockWithin_agrees maxDepth _ scope recover
  · exact fun _ => .pure

/-- Only the remark that counts the reports may differ. -/
theorem wholeProgram_agrees : Agrees (Alike L) (wholeProgram maxDepth) := by
  apply note_agrees.bind
  intro _
  apply program_agrees.bind
  intro p s s' b u b' u' hs h h'
  obtain ⟨n, t, hlook, hrun⟩ := ok_of_bind h
  obtain ⟨n', t', hlook', hrun'⟩ := ok_of_bind h'
  cases hlook
  cases hlook'
  obtain ⟨a, v, hnote, hpure⟩ := ok_of_bind hrun
  obtain ⟨a', v', hnote', hpure'⟩ := ok_of_bind hrun'
  cases hpure
  cases hpure'
  exact ⟨rfl, note_alike hs hnote hnote'⟩

end PlZero.Grammar
