/-
  PlZero/Proofs/Recovery/Readers.lean
  ===================================
  **Every rule of the grammar runs in lockstep with itself** on tokens of the same kinds.  A
  rule chooses by the kind of the head token, by the number of open parentheses and by lengths
  of lists, which are the same in both runs.  What it takes from a token stands in trees and
  entries, where no rule looks at it again, except that a name may be declared already.
-/
import PlZero.Grammar.Blocks
import PlZero.Proofs.Recovery.Rules

namespace PlZero.Grammar

open Reader ReaderState

variable {w : Counterparts} {recover : KindSet} {maxDepth : Nat}

/-! ### Expressions -/

theorem lvalue_lockstep :
    Lockstep (Twin w) (SameShape Expression.shape) (lvalue recover) (lvalue recover) := by
  apply attempt_lockstep
  · exact fun _ _ => rfl
  · intro l l' _
    apply name_lockstep.bind
    intro x x' _
    apply currentScope_lockstep.bind
    rintro scope _ rfl
    exact expect_lockstep.bind fun _ _ _ => .pure rfl

section

variable {inside : KindSet → Reader Expression}
  (hinside : ∀ r, Lockstep (Twin w) (SameShape Expression.shape) (inside r) (inside r))
include hinside

theorem factorOver_lockstep :
    Lockstep (Twin w) (SameShape Expression.shape) (factorOver inside recover)
      (factorOver inside recover) := by
  apply attempt_lockstep
  · exact fun _ _ => rfl
  · intro l l' hl
    apply head_lockstep.bind
    intro first first' hkind
    rw [hkind]
    split
    · exact lvalue_lockstep
    · apply number_lockstep.bind
      intro v v' _
      exact expect_lockstep.bind fun _ _ _ => .pure rfl
    · apply expect_lockstep.bind
      intro _ _ _
      apply atLimit_lockstep.bind
      rintro limit _ rfl
      split
      · apply (report_lockstep (fun _ => .expressionTooDeep) hl).bind
        intro _ _ _
        exact (onStream_lockstep Stream.skipParenthesised_lockstep).bind fun _ _ _ => .pure rfl
      · apply (deeper_lockstep (hinside _)).bind
        intro e e' he
        exact demand_lockstep.bind fun _ _ _ => .pure he
    · exact unreachable_lockstep

omit hinside in
theorem joined_lockstep {kinds : KindSet} {operator : Kind → Operator} {part : Reader Expression}
    (hpart : Lockstep (Twin w) (SameShape Expression.shape) part part)
    {first first' : Expression} (hfirst : SameShape Expression.shape first first') :
    Lockstep (Twin w) (SameShape Expression.shape) (joined kinds operator part first)
      (joined kinds operator part first') := by
  apply whileIn_lockstep
  · intro left left' hleft
    apply head_lockstep.bind
    intro sign sign' hkind
    rw [hkind]
    apply expect_lockstep.bind
    intro _ _ _
    apply hpart.bind
    intro right right' hright
    exact .pure (congrArg₂ (Expression.binary .unknown (operator sign.kind)) hleft hright)
  · exact hfirst

theorem termOver_lockstep :
    Lockstep (Twin w) (SameShape Expression.shape) (termOver inside recover)
      (termOver inside recover) := by
  apply attempt_lockstep
  · exact fun _ _ => rfl
  · intro l l' _
    apply (factorOver_lockstep hinside).bind
    intro first first' hfirst
    exact joined_lockstep (factorOver_lockstep hinside) hfirst

omit hinside in
theorem leadingSign_lockstep : Lockstep (Twin w) Eq leadingSign leadingSign := by
  apply head_lockstep.bind
  intro sign sign' hkind
  rw [hkind]
  split
  · exact expect_lockstep.bind fun _ _ _ => .pure rfl
  · exact .pure rfl

theorem expressionOver_lockstep :
    Lockstep (Twin w) (SameShape Expression.shape) (expressionOver inside recover)
      (expressionOver inside recover) := by
  apply attempt_lockstep
  · exact fun _ _ => rfl
  · intro l l' _
    apply leadingSign_lockstep.bind
    rintro negative _ rfl
    apply (termOver_lockstep hinside).bind
    intro first first' hfirst
    apply joined_lockstep (termOver_lockstep hinside)
    split
    · exact congrArg (Expression.unary .unknown .neg) hfirst
    · exact hfirst

omit hinside in
theorem relOp_lockstep : Lockstep (Twin w) Eq (relOp recover) (relOp recover) := by
  apply certainly_lockstep
  intro l l' _
  apply head_lockstep.bind
  intro sign sign' hkind
  rw [hkind]
  exact expect_lockstep.bind fun _ _ _ => .pure rfl

theorem conditionOver_lockstep :
    Lockstep (Twin w) (SameShape Expression.shape) (conditionOver inside recover)
      (conditionOver inside recover) := by
  apply attempt_lockstep
  · exact fun _ _ => rfl
  · intro l l' _
    apply (expressionOver_lockstep hinside).bind
    intro left left' hleft
    apply headIn_lockstep.bind
    rintro compared _ rfl
    split
    · apply location_lockstep.bind
      intro place place' _
      apply relOp_lockstep.bind
      rintro op _ rfl
      apply (expressionOver_lockstep hinside).bind
      intro right right' hright
      exact .pure (congrArg₂ (Expression.binary .unknown op) hleft hright)
    · exact .pure hleft

end

theorem conditionWithin_lockstep (n : Nat) : ∀ r,
    Lockstep (Twin w) (SameShape Expression.shape) (conditionWithin n r)
      (conditionWithin n r) := by
  induction n with
  | zero => exact fun _ => tooDeep_lockstep
  | succ n ih => exact fun _ => conditionOver_lockstep ih

theorem condition_lockstep :
    Lockstep (Twin w) (SameShape Expression.shape) (condition recover) (condition recover) :=
  conditionOver_lockstep (conditionWithin_lockstep maxNesting)

theorem expression_lockstep :
    Lockstep (Twin w) (SameShape Expression.shape) (expression recover) (expression recover) :=
  expressionOver_lockstep (conditionWithin_lockstep maxNesting)

/-! ### Statements -/

/-- Lists of one shape are as long as each other, and padded alike. -/
theorem padded_shape {xs xs' : List Expression} {l l' : Location}
    (h : SameShape (List.map Expression.shape) xs xs') (n : Nat) :
    SameShape (List.map Expression.shape) (padded (.error l) n xs) (padded (.error l') n xs') := by
  have hmaps : xs'.map Expression.shape = xs.map Expression.shape := h
  have hlength : xs'.length = xs.length := by simpa using congrArg List.length hmaps
  simp only [SameShape, padded, List.map_append, List.map_replicate, hmaps, hlength,
    Expression.shape]

theorem assignment_lockstep :
    Lockstep (Twin w) (SameShape Statement.shape) (assignment recover) (assignment recover) := by
  apply attempt_lockstep
  · exact fun _ _ => rfl
  · intro l l' _
    apply (separated_lockstep demand_lockstep lvalue_lockstep).bind
    intro targets targets' htargets
    apply location_lockstep.bind
    intro place place' hplace
    apply demand_lockstep.bind
    intro _ _ _
    apply (separated_lockstep demand_lockstep condition_lockstep).bind
    intro values values' hvalues
    have hlengths : targets'.length = targets.length := by
      simpa using congrArg List.length htargets
    have hlengths' : values'.length = values.length := by
      simpa using congrArg List.length hvalues
    have hequal : targets'.length = values'.length ↔ targets.length = values.length := by
      rw [hlengths, hlengths']
    apply (reportUnless_lockstep hequal (fun _ => .unequalAssignment) hplace).bind
    intro _ _ _
    apply location_lockstep.bind
    intro filler filler' _
    rw [hlengths, hlengths']
    exact .pure (congrArg₂ (Statement.assign .unknown) (padded_shape htargets _)
      (padded_shape hvalues _))

theorem readStatement_lockstep :
    Lockstep (Twin w) (SameShape Statement.shape) (readStatement recover)
      (readStatement recover) := by
  apply certainly_lockstep
  intro l l' _
  apply expect_lockstep.bind
  intro _ _ _
  apply lvalue_lockstep.bind
  intro target target' htarget
  exact .pure (congrArg (fun e => Statement.assign .unknown [e] [.read .unknown]) htarget)

theorem writeStatement_lockstep :
    Lockstep (Twin w) (SameShape Statement.shape) (writeStatement recover)
      (writeStatement recover) := by
  apply certainly_lockstep
  intro l l' _
  apply expect_lockstep.bind
  intro _ _ _
  apply expression_lockstep.bind
  intro value value' hvalue
  exact .pure (congrArg (Statement.write .unknown) hvalue)

theorem nameAndParens_lockstep :
    Lockstep (Twin w) Eq (nameAndParens recover) (nameAndParens recover) :=
  demand_lockstep.bind fun _ _ _ => demand_lockstep.bind fun _ _ _ => demand_lockstep

theorem calledName_lockstep : Lockstep (Twin w) (fun _ _ => True) calledName calledName := by
  apply headIs_lockstep.bind
  rintro named _ rfl
  split
  · exact name_lockstep
  · exact .pure trivial

theorem callStatement_lockstep :
    Lockstep (Twin w) (SameShape Statement.shape) (callStatement recover)
      (callStatement recover) := by
  apply certainly_lockstep
  intro l l' _
  apply expect_lockstep.bind
  intro _ _ _
  apply calledName_lockstep.bind
  intro x x' _
  apply nameAndParens_lockstep.bind
  intro _ _ _
  apply currentScope_lockstep.bind
  rintro scope _ rfl
  exact .pure rfl

theorem skipStatement_lockstep :
    Lockstep (Twin w) (SameShape Statement.shape) (skipStatement recover)
      (skipStatement recover) := by
  apply certainly_lockstep
  intro l l' _
  exact expect_lockstep.bind fun _ _ _ => .pure rfl

section

variable {statement : KindSet → Reader Statement}
  (hstatement : ∀ r, Lockstep (Twin w) (SameShape Statement.shape) (statement r) (statement r))
include hstatement

theorem whileStatement_lockstep :
    Lockstep (Twin w) (SameShape Statement.shape) (whileStatement statement recover)
      (whileStatement statement recover) := by
  apply certainly_lockstep
  intro l l' _
  apply expect_lockstep.bind
  intro _ _ _
  apply condition_lockstep.bind
  intro test test' htest
  apply demand_lockstep.bind
  intro _ _ _
  apply (hstatement _).bind
  intro body body' hbody
  exact .pure (congrArg₂ (Statement.repeated .unknown) htest hbody)

theorem ifStatement_lockstep :
    Lockstep (Twin w) (SameShape Statement.shape) (ifStatement statement recover)
      (ifStatement statement recover) := by
  apply certainly_lockstep
  intro l l' _
  apply expect_lockstep.bind
  intro _ _ _
  apply condition_lockstep.bind
  intro test test' htest
  apply demand_lockstep.bind
  intro _ _ _
  apply (hstatement _).bind
  intro thenBranch thenBranch' hthen
  apply demand_lockstep.bind
  intro _ _ _
  apply (hstatement _).bind
  intro elseBranch elseBranch' helse
  have hbranches := congrArg₂ (Statement.choice .unknown test.shape) hthen helse
  apply Lockstep.pure
  have hcondition : test'.shape = test.shape := htest
  simp only [SameShape, Statement.shape, hcondition]
  exact hbranches

theorem statementList_lockstep :
    Lockstep (Twin w) (SameShape Statement.shape) (statementList statement recover)
      (statementList statement recover) := by
  apply attempt_lockstep
  · exact fun _ _ => rfl
  · intro l l' _
    apply (separated_lockstep expect_lockstep (hstatement _)).bind
    intro statements statements' hstatements
    apply Lockstep.pure
    simp only [SameShape, Statement.shape, Statement.shapes_eq]
    exact congrArg (Statement.list .unknown) hstatements

theorem compoundStatement_lockstep :
    Lockstep (Twin w) (SameShape Statement.shape) (compoundStatement statement recover)
      (compoundStatement statement recover) := by
  apply attempt_lockstep
  · exact fun _ _ => rfl
  · intro l l' _
    apply expect_lockstep.bind
    intro _ _ _
    apply (statementList_lockstep hstatement).bind
    intro list list' hlist
    exact demand_lockstep.bind fun _ _ _ => .pure hlist

theorem doBranch_lockstep :
    Lockstep (Twin w) (SameShape Branch.shape) (doBranch statement recover)
      (doBranch statement recover) := by
  apply attempt_lockstep
  · exact fun _ _ => rfl
  · intro l l' _
    apply condition_lockstep.bind
    intro test test' htest
    apply demand_lockstep.bind
    intro _ _ _
    apply (statementList_lockstep hstatement).bind
    intro body body' hbody
    apply headIs_lockstep.bind
    rintro exits _ rfl
    split
    · apply expect_lockstep.bind
      intro _ _ _
      exact .pure (congrArg₂ (fun c b => Branch.mk .unknown c b true) htest hbody)
    · exact .pure (congrArg₂ (fun c b => Branch.mk .unknown c b false) htest hbody)

theorem doStatement_lockstep :
    Lockstep (Twin w) (SameShape Statement.shape) (doStatement statement recover)
      (doStatement statement recover) := by
  apply certainly_lockstep
  intro l l' _
  apply expect_lockstep.bind
  intro _ _ _
  apply (separated_lockstep expect_lockstep (doBranch_lockstep hstatement)).bind
  intro branches branches' hbranches
  apply demand_lockstep.bind
  intro _ _ _
  apply Lockstep.pure
  simp only [SameShape, Statement.shape, Branch.shapes_eq]
  exact congrArg (Statement.guarded .unknown) hbranches

theorem statementOver_lockstep :
    Lockstep (Twin w) (SameShape Statement.shape) (statementOver statement recover)
      (statementOver statement recover) := by
  apply attempt_lockstep
  · exact fun _ _ => rfl
  · intro l l' _
    apply head_lockstep.bind
    intro first first' hkind
    rw [hkind]
    split
    · exact assignment_lockstep
    · exact whileStatement_lockstep hstatement
    · exact ifStatement_lockstep hstatement
    · exact readStatement_lockstep
    · exact writeStatement_lockstep
    · exact callStatement_lockstep
    · exact compoundStatement_lockstep hstatement
    · exact skipStatement_lockstep
    · exact doStatement_lockstep hstatement
    · exact unreachable_lockstep

end

theorem statementWithin_lockstep (n : Nat) : ∀ r,
    Lockstep (Twin w) (SameShape Statement.shape) (statementWithin n r) (statementWithin n r) := by
  induction n with
  | zero => exact fun _ => tooDeep_lockstep
  | succ n ih => exact fun _ => statementOver_lockstep ih

/-! ### Constants and types -/

theorem constantOver_lockstep {operand : KindSet → Reader Constant}
    (hoperand : ∀ r, Lockstep (Twin w) (fun _ _ => True) (operand r) (operand r)) :
    Lockstep (Twin w) (fun _ _ => True) (constantOver operand recover)
      (constantOver operand recover) := by
  apply currentScope_lockstep.bind
  rintro scope _ rfl
  apply attempt_lockstep
  · exact fun _ _ => trivial
  · intro l l' hl
    apply head_lockstep.bind
    intro first first' hkind
    rw [hkind]
    split
    · apply number_lockstep.bind
      intro v v' _
      exact expect_lockstep.bind fun _ _ _ => .pure trivial
    · apply name_lockstep.bind
      intro x x' _
      exact expect_lockstep.bind fun _ _ _ => .pure trivial
    · apply expect_lockstep.bind
      intro _ _ _
      apply atLimit_lockstep.bind
      rintro limit _ rfl
      split
      · apply (report_lockstep (fun _ => .expressionTooDeep) hl).bind
        intro _ _ _
        exact skipTo_lockstep.bind fun _ _ _ => .pure trivial
      · exact (deeper_lockstep (hoperand _)).bind fun _ _ _ => .pure trivial
    · exact unreachable_lockstep

theorem constantWithin_lockstep (n : Nat) : ∀ r,
    Lockstep (Twin w) (fun _ _ => True) (constantWithin n r) (constantWithin n r) := by
  induction n with
  | zero => exact fun _ => tooDeep_lockstep
  | succ n ih => exact fun _ => constantOver_lockstep ih

theorem constant_lockstep :
    Lockstep (Twin w) (fun _ _ => True) (constant recover) (constant recover) :=
  constantOver_lockstep (constantWithin_lockstep maxNesting)

theorem typeIdentifier_lockstep :
    Lockstep (Twin w) (fun _ _ => True) (typeIdentifier recover) (typeIdentifier recover) := by
  apply attempt_lockstep
  · exact fun _ _ => trivial
  · intro l l' _
    apply name_lockstep.bind
    intro x x' _
    apply currentScope_lockstep.bind
    rintro scope _ rfl
    apply location_lockstep.bind
    intro place place' _
    exact expect_lockstep.bind fun _ _ _ => .pure trivial

theorem subrangeType_lockstep :
    Lockstep (Twin w) (fun _ _ => True) (subrangeType recover) (subrangeType recover) := by
  apply attempt_lockstep
  · exact fun _ _ => trivial
  · intro l l' _
    apply expect_lockstep.bind
    intro _ _ _
    apply constant_lockstep.bind
    intro lower lower' _
    apply demand_lockstep.bind
    intro _ _ _
    apply constant_lockstep.bind
    intro upper upper' _
    exact demand_lockstep.bind fun _ _ _ => .pure trivial

theorem typeExpr_lockstep :
    Lockstep (Twin w) (fun _ _ => True) (typeExpr recover) (typeExpr recover) := by
  apply attempt_lockstep
  · exact fun _ _ => trivial
  · intro l l' _
    apply head_lockstep.bind
    intro first first' hkind
    rw [hkind]
    split
    · exact typeIdentifier_lockstep
    · exact subrangeType_lockstep
    · exact unreachable_lockstep

/-! ### Definitions -/

theorem declareConstant_aside {x : String} {l : Location} {tree : Constant} :
    StaysAside (declareConstant x l tree) := by
  intro s
  refine .bind (.reads ?_)
  cases houtcome : s.symbols.declareConstant x l tree with
  | error node => trivial
  | ok outcome =>
    have hframes := SymbolTable.frame_declareConstant houtcome
    exact .bind ((declared_aside hframes).post fun _ _ haside => .pure haside)

theorem declareType_aside {x : String} {l : Location} {meaning : TypeExpr} :
    StaysAside (declareType x l meaning) := by
  intro s
  refine .bind (.reads (.bind ?_))
  exact (declared_aside SymbolTable.frame_declare).post fun _ _ haside => .pure haside

theorem declareVariable_aside {x : String} {l : Location} {base : TypeExpr} :
    StaysAside (declareVariable x l base) := by
  intro s
  refine .bind (.reads (.bind ?_))
  exact (declared_aside SymbolTable.frame_declare).post fun _ _ haside => .pure haside

theorem definition_lockstep {γ : Type} {r : Rule} {sign : Kind} {follow : KindSet}
    {meaning : KindSet → Reader γ} {declare : String → Location → γ → Reader Unit}
    (hmeaning : ∀ k, Lockstep (Twin w) (fun _ _ => True) (meaning k) (meaning k))
    (hdeclare : ∀ x l m, StaysAside (declare x l m)) :
    Lockstep (Twin w) Eq (definition r sign follow meaning declare recover)
      (definition r sign follow meaning declare recover) := by
  apply attempt_lockstep
  · exact fun _ _ => rfl
  · intro _ _ _
    apply name_lockstep.bind
    intro x x' _
    apply location_lockstep.bind
    intro l l' _
    apply expect_lockstep.bind
    intro _ _ _
    apply demand_lockstep.bind
    intro _ _ _
    apply (hmeaning _).bind
    intro m m' _
    apply (lockstep_of_aside (hdeclare x l m) (hdeclare x' l' m')).bind
    exact fun _ _ _ => demand_lockstep

theorem definitionList_lockstep {r : Rule} {keyword : Kind} {item : KindSet → Reader Unit}
    (hitem : ∀ k, Lockstep (Twin w) Eq (item k) (item k)) :
    Lockstep (Twin w) Eq (definitionList r keyword item recover)
      (definitionList r keyword item recover) := by
  apply certainly_lockstep
  intro _ _ _
  apply expect_lockstep.bind
  intro _ _ _
  apply (hitem _).bind
  intro _ _ _
  exact whileIn_lockstep (fun _ _ _ => hitem _) rfl

theorem constantList_lockstep :
    Lockstep (Twin w) Eq (constantList recover) (constantList recover) :=
  definitionList_lockstep fun _ =>
    definition_lockstep (fun _ => constant_lockstep) fun _ _ _ => declareConstant_aside

theorem typeList_lockstep : Lockstep (Twin w) Eq (typeList recover) (typeList recover) :=
  definitionList_lockstep fun _ =>
    definition_lockstep (fun _ => typeExpr_lockstep) fun _ _ _ => declareType_aside

theorem variableList_lockstep :
    Lockstep (Twin w) Eq (variableList recover) (variableList recover) :=
  definitionList_lockstep fun _ =>
    definition_lockstep (fun _ => typeIdentifier_lockstep) fun _ _ _ => declareVariable_aside

/-! ### Procedures -/

theorem detachedProcedure_aside {x : String} {l : Location} {s t : ReaderState} (h : s.Aside t) :
    Ends (fun _ _ => True) (detachedProcedure x l) (fun _ u => s.Aside u) t := by
  refine .bind (.reads (.bind (.modify (.pure ?_))))
  exact ⟨h.stream, SymbolTable.frame_append.trans h.frame, h.nesting⟩

/-- The name of a procedure may be declared in one run, and be taken in the other, where an
    entry is added that no name refers to. -/
theorem procedureEntry_aside : StaysAside procedureEntry := by
  intro s
  refine .bind (.reads (.bind (.reads ?_)))
  split
  · rename_i hnamed
    refine .bind (.name (Stream.headIs_iff.mp hnamed) (.bind (.reads (.bind ?_))))
    apply (declared_aside SymbolTable.frame_declare).post
    intro added t haside
    cases added with
    | some entry => exact .pure haside
    | none => exact detachedProcedure_aside haside
  · exact detachedProcedure_aside (aside_refl s)

theorem procedureHeader_lockstep :
    Lockstep (Twin w) (fun _ _ => True) (procedureHeader recover) (procedureHeader recover) := by
  apply certainly_lockstep
  intro _ _ _
  apply expect_lockstep.bind
  intro _ _ _
  apply (lockstep_of_aside procedureEntry_aside procedureEntry_aside).bind
  intro entry entry' _
  exact nameAndParens_lockstep.bind fun _ _ _ => .pure trivial

section

variable {block : Nat → KindSet → Reader Block}
  (hblock : ∀ scope r,
    Lockstep (Twin w) (SameShape Block.shape) (block scope r) (block scope r))
include hblock

theorem procedureDefinition_lockstep :
    Lockstep (Twin w) (SameShape Procedure.shape) (procedureDefinition block recover)
      (procedureDefinition block recover) := by
  apply certainly_lockstep
  intro l l' _
  apply procedureHeader_lockstep.bind
  intro entry entry' _
  apply Lockstep.bind (Q := SameShape Block.shape)
  · apply inScope_lockstep
    intro scope
    exact demand_lockstep.bind fun _ _ _ => hblock _ _
  · intro body body' hbody
    apply demand_lockstep.bind
    intro _ _ _
    exact .pure (congrArg (Procedure.mk .unknown "" 0) hbody)

theorem declaration_lockstep :
    Lockstep (Twin w) (SameShape (Option.map Procedure.shape)) (declaration block recover)
      (declaration block recover) := by
  apply certainly_lockstep
  intro _ _ _
  apply head_lockstep.bind
  intro first first' hkind
  rw [hkind]
  split
  · exact constantList_lockstep.bind fun _ _ _ => .pure rfl
  · exact typeList_lockstep.bind fun _ _ _ => .pure rfl
  · exact variableList_lockstep.bind fun _ _ _ => .pure rfl
  · apply (procedureDefinition_lockstep hblock).bind
    intro p p' hp
    exact .pure (congrArg some hp)
  · exact unreachable_lockstep

/-! ### Blocks and programs -/

theorem blockOver_lockstep {statement : KindSet → Reader Statement} {scope : Nat}
    (hstatement : ∀ r,
      Lockstep (Twin w) (SameShape Statement.shape) (statement r) (statement r)) :
    Lockstep (Twin w) (SameShape Block.shape) (blockOver statement block scope recover)
      (blockOver statement block scope recover) := by
  apply attempt_lockstep
  · exact fun _ _ => rfl
  · intro l l' _
    apply Lockstep.bind (Q := SameShape (List.map Procedure.shape))
    · apply whileIn_lockstep
      · intro found found' hfound
        apply (declaration_lockstep hblock).bind
        intro added added' hadded
        have hmaps : added'.map Procedure.shape = added.map Procedure.shape := hadded
        cases added with
        | none =>
          obtain rfl := Option.map_eq_none_iff.mp hmaps
          exact .pure hfound
        | some p =>
          obtain ⟨p', rfl, hp⟩ := Option.map_eq_some_iff.mp hmaps
          exact .pure (congrArg₂ List.cons hp hfound)
      · rfl
    · intro found found' hfound
      have hmaps : found'.map Procedure.shape = found.map Procedure.shape := hfound
      apply (compoundStatement_lockstep hstatement).bind
      intro body body' hbody
      apply Lockstep.pure
      simp only [SameShape, Block.shape, Procedure.shapes_eq, List.map_reverse, hmaps]
      exact congrArg (Block.mk .unknown scope _) hbody

end

theorem blockWithin_lockstep (n : Nat) : ∀ scope r,
    Lockstep (Twin w) (SameShape Block.shape) (blockWithin n scope r) (blockWithin n scope r) := by
  induction n with
  | zero => exact fun _ _ => tooDeep_lockstep
  | succ n ih => exact fun _ _ => blockOver_lockstep ih (statementWithin_lockstep n)

theorem program_lockstep :
    Lockstep (Twin w) (SameShape Program.shape) (program maxDepth recover)
      (program maxDepth recover) := by
  apply Lockstep.bind (Q := SameShape Block.shape)
  · apply inScope_lockstep
    intro scope
    apply attempt_lockstep
    · exact fun _ _ => rfl
    · intro l l' _
      exact blockWithin_lockstep maxDepth scope recover
  · intro block block' hblock
    exact .pure (congrArg (Program.mk .unknown) hblock)

/-- The remark that counts the reports may differ. -/
theorem wholeProgram_lockstep :
    Lockstep (Twin w) (SameShape Program.shape) (wholeProgram maxDepth)
      (wholeProgram maxDepth) := by
  apply (lockstep_of_aside (note_aside rfl) (note_aside rfl)).bind
  intro _ _ _
  apply program_lockstep.bind
  intro p p' hp
  apply Lockstep.bind (Q := fun _ _ => True)
  · exact reads_lockstep fun _ _ _ => trivial
  · intro n n' _
    apply (lockstep_of_aside (note_aside rfl) (note_aside rfl)).bind
    exact fun _ _ _ => .pure hp

end PlZero.Grammar
