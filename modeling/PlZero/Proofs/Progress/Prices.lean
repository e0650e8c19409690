/-
  PlZero/Proofs/Progress/Prices.lean
  ==================================
  **What the rules of the grammar cost.**  Every reader of the grammar has a price that does not
  depend on where it starts (`Priced`), from a target at one diagnostic up to a branch of a
  guarded statement at thirty.  Rules that take a keyword first cost nothing, since the keyword
  pays for all that can go wrong in them.  What nests is given the price of the rule that it
  belongs to, and the rule keeps to it, because it reads what nests behind a token.
-/
import PlZero.Proofs.Progress.Costs

namespace PlZero.Grammar

open Reader ReaderState

variable {recover : KindSet} {W : Int} {s : ReaderState} {maxDepth : Nat}

/-! ### Expressions -/

theorem lvalue_priced : Priced 2 1 (lvalue recover) := by
  refine .attempt (k := 1) (c := -1) (fun l => .of fun W s hs => ?_) (by decide) (by decide)
    (by decide) (by decide)
  refine .step hs (name_priced s) (by decide) fun x t ht => Costs.look ?_
  refine .step ht (expect_priced (by decide) t) (by decide) fun _ u hu => ?_
  exact .pure hu (by decide)

/-- A further operand is paid for by its operator. -/
theorem joined_priced {kinds : KindSet} {operator : Kind → Operator} {part : Reader Expression}
    {first : Expression} (hkinds : .endOfFile ∉ kinds) (hpart : Priced 9 9 part) :
    Priced 1 0 (joined kinds operator part first) := by
  rw [joined_eq]
  refine whileIn_costs (fun left t hin => Costs.look ?_) first
  have hne : t.stream.head.kind ≠ .endOfFile := fun hend => hkinds (hend ▸ hin)
  refine Costs.step (p := 0) (by omega) (expect_priced hne t) (by decide) fun _ u hu => ?_
  refine .step hu (hpart u) (by decide) fun right v hv => ?_
  exact .pure hv (by decide)

theorem leadingSign_priced : Priced 1 0 leadingSign := by
  refine .of fun W s hs => Costs.look ?_
  split
  · next hsign =>
    have hne : s.stream.head.kind ≠ .endOfFile := by
      intro hend
      rw [hend] at hsign
      exact absurd hsign (by decide)
    refine Costs.step hs (expect_priced hne s) (by decide) fun _ t ht => ?_
    exact .pure ht (by decide)
  · exact .pure hs (by decide)

theorem relOp_priced : Priced 1 (-Stream.credit + 1) (relOp recover) := by
  refine .certainly (fun l t hin => Costs.look ?_) (by decide) (by decide)
  have hne : t.stream.head.kind ≠ .endOfFile := by
    intro hend
    rw [hend] at hin
    exact absurd hin (by decide)
  refine Costs.step (p := 0) (by omega) (expect_priced hne t) (by decide) fun _ u hu => ?_
  exact .pure hu (by decide)

section

variable {inside : KindSet → Reader Expression} (hinside : ∀ r, Priced 9 9 (inside r))
include hinside

theorem factorOver_priced : Priced 3 3 (factorOver inside recover) := by
  refine .attempt (k := 2) (c := 1) (fun l => .of fun W s hs => Costs.look ?_) (by decide)
    (by decide) (by decide) (by decide)
  split
  · exact .last hs (lvalue_priced s) (by decide) (by decide)
  · refine .step hs (number_priced s) (by decide) fun x t ht => ?_
    refine .step ht (expect_priced (by decide) t) (by decide) fun _ u hu => ?_
    exact .pure hu (by decide)
  · refine .step hs (expect_priced (by decide) s) (by decide) fun _ t ht => Costs.look ?_
    split
    · refine .step ht (report_priced t) (by decide) fun _ u hu => ?_
      refine .step hu (skipParenthesised_priced u) (by decide) fun _ v hv => ?_
      exact .pure hv (by decide)
    · refine .step ht ((hinside _).deeper t) (by decide) fun e u hu => ?_
      refine .step hu (demand_priced u) (by decide) fun _ v hv => ?_
      exact .pure hv (by decide)
  · exact .last hs (unreachable_priced (c := 0) (Int.le_refl 1) s) (by decide) (by decide)

theorem termOver_priced : Priced 5 5 (termOver inside recover) := by
  have hfactor : ∀ {r}, Priced 3 3 (factorOver inside r) := factorOver_priced hinside
  refine .attempt (k := 4) (c := 3) (fun l => .of fun W s hs => ?_) (by decide) (by decide)
    (by decide) (by decide)
  refine .step hs (hfactor s) (by decide) fun first t ht => ?_
  exact .last ht (joined_priced (by decide) (hfactor.mono (by decide) (by decide)) t) (by decide)
    (by decide)

theorem expressionOver_priced : Priced 7 7 (expressionOver inside recover) := by
  have hterm : ∀ {r}, Priced 5 5 (termOver inside r) := termOver_priced hinside
  refine .attempt (k := 6) (c := 5) (fun l => .of fun W s hs => ?_) (by decide) (by decide)
    (by decide) (by decide)
  refine .step hs (leadingSign_priced s) (by decide) fun negative t ht => ?_
  refine .step ht (hterm t) (by decide) fun first u hu => ?_
  exact .last hu (joined_priced (by decide) (hterm.mono (by decide) (by decide)) u) (by decide)
    (by decide)

theorem conditionOver_priced : Priced 9 9 (conditionOver inside recover) := by
  have hexpression : ∀ {r}, Priced 7 7 (expressionOver inside r) := expressionOver_priced hinside
  refine .attempt (k := 8) (c := 7) (fun l => .of fun W s hs => ?_) (by decide) (by decide)
    (by decide) (by decide)
  refine .step hs (hexpression s) (by decide) fun left t ht => Costs.look ?_
  split
  · refine Costs.look (.step ht (relOp_priced t) (by decide) fun op u hu => ?_)
    refine .step hu (hexpression u) (by decide) fun right v hv => ?_
    exact .pure hv (by decide)
  · exact .pure ht (by decide)

end

theorem conditionWithin_priced : ∀ n {recover}, Priced 9 9 (conditionWithin n recover)
  | 0, _ => tooDeep_priced (by decide)
  | n + 1, _ => conditionOver_priced fun _ => conditionWithin_priced n

theorem condition_priced : Priced 9 9 (condition recover) :=
  conditionOver_priced fun _ => conditionWithin_priced maxNesting

theorem expression_priced : Priced 7 7 (expression recover) :=
  expressionOver_priced fun _ => conditionWithin_priced maxNesting

/-! ### Constants and types -/

theorem constantOver_priced {operand : KindSet → Reader Constant}
    (hoperand : ∀ r, Priced 3 3 (operand r)) : Priced 3 3 (constantOver operand recover) := by
  refine .look fun scope => .attempt (k := 1) (c := 1) (fun l => .of fun W s hs => Costs.look ?_)
    (by decide) (by decide) (by decide) (by decide)
  split
  · refine .step hs (number_priced s) (by decide) fun x t ht => ?_
    refine .step ht (expect_priced (by decide) t) (by decide) fun _ u hu => ?_
    exact .pure hu (by decide)
  · refine .step hs (name_priced s) (by decide) fun x t ht => ?_
    refine .step ht (expect_priced (by decide) t) (by decide) fun _ u hu => ?_
    exact .pure hu (by decide)
  · refine .step hs (expect_priced (by decide) s) (by decide) fun _ t ht => Costs.look ?_
    split
    · refine .step ht (report_priced t) (by decide) fun _ u hu => ?_
      refine .step hu (skipTo_priced u) (by decide) fun _ v hv => ?_
      exact .pure hv (by decide)
    · refine .step ht ((hoperand _).deeper t) (by decide) fun c u hu => ?_
      exact .pure hu (by decide)
  · exact .last hs (unreachable_priced (c := 0) (Int.le_refl 1) s) (by decide) (by decide)

theorem constantWithin_priced : ∀ n {recover}, Priced 3 3 (constantWithin n recover)
  | 0, _ => tooDeep_priced (by decide)
  | n + 1, _ => constantOver_priced fun _ => constantWithin_priced n

theorem constant_priced : Priced 3 3 (constant recover) :=
  constantOver_priced fun _ => constantWithin_priced maxNesting

theorem typeIdentifier_priced : Priced 2 1 (typeIdentifier recover) := by
  refine .attempt (k := 1) (c := -1) (fun l => .of fun W s hs => ?_) (by decide) (by decide)
    (by decide) (by decide)
  refine .step hs (name_priced s) (by decide) fun x t ht => Costs.look (Costs.look ?_)
  refine .step ht (expect_priced (by decide) t) (by decide) fun _ u hu => ?_
  exact .pure hu (by decide)

theorem subrangeType_priced : Priced 2 1 (subrangeType recover) := by
  refine .attempt (k := 1) (c := -1) (fun l => .of fun W s hs => ?_) (by decide) (by decide)
    (by decide) (by decide)
  refine .step hs (expect_priced (by decide) s) (by decide) fun _ t ht => ?_
  refine .step ht (constant_priced t) (by decide) fun lower u hu => ?_
  refine .step hu (demand_priced u) (by decide) fun _ v hv => ?_
  refine .step hv (constant_priced v) (by decide) fun upper w hw => ?_
  refine .step hw (demand_priced w) (by decide) fun _ x hx => ?_
  exact .pure hx (by decide)

theorem typeExpr_priced : Priced 3 3 (typeExpr recover) := by
  refine .attempt (k := 2) (c := 1) (fun l => .of fun W s hs => Costs.look ?_) (by decide)
    (by decide) (by decide) (by decide)
  split
  · exact .last hs (typeIdentifier_priced s) (by decide) (by decide)
  · exact .last hs (subrangeType_priced s) (by decide) (by decide)
  · exact .last hs (unreachable_priced (c := 0) (Int.le_refl 1) s) (by decide) (by decide)

/-! ### Definitions -/

section

variable {β : Type} {r : Rule} {sign keyword : Kind} {follow : KindSet}
  {meaning : KindSet → Reader β} {declare : String → Location → β → Reader Unit}

/-- A definition that starts at the head token costs nothing, since its name pays for all that
    follows it. -/
theorem definition_costs (hmeaning : ∀ r, Priced 3 3 (meaning r))
    (hdeclare : ∀ n l m, Priced 1 1 (declare n l m)) :
    Priced 2 1 (definition r sign follow meaning declare recover) ∧
      ∀ s : ReaderState, s.stream.head.kind ∈ r.starts →
        Costs ReaderState.weight s.weight 1 (-1)
          (definition r sign follow meaning declare recover) s := by
  apply attempt_costs (k := 1) (c := -2)
  case hbody =>
    refine fun l => .of fun W s hs => ?_
    refine .step hs (name_priced s) (by decide) fun n t ht => Costs.look ?_
    refine .step ht (expect_priced (by decide) t) (by decide) fun _ u hu => ?_
    refine .step hu (demand_priced u) (by decide) fun _ v hv => ?_
    refine .step hv (hmeaning _ v) (by decide) fun m w hw => ?_
    refine .step hw (hdeclare n _ m w) (by decide) fun _ x hx => ?_
    exact .last hx (demand_priced x) (by decide) (by decide)
  all_goals decide

theorem definitionList_priced {item : KindSet → Reader Unit} (hkeyword : keyword ≠ .endOfFile)
    (hitem : ∀ r, Priced 2 1 (item r))
    (hfurther : ∀ r (s : ReaderState), s.stream.head.kind = .identifier →
      Costs ReaderState.weight s.weight 1 (-1) (item r) s) :
    Priced 1 (-1) (definitionList r keyword item recover) := by
  refine .certainly (k := 1) (c := -2) (fun l t _ => ?_) (by decide) (by decide)
  refine Costs.step (p := 0) (by omega) (expect_priced hkeyword t) (by decide) fun _ u hu => ?_
  refine .step hu (hitem _ u) (by decide) fun _ v hv => ?_
  refine .last hv (whileIn_costs (k := 1) (fun _ w hin => ?_) () v) (by decide) (by decide)
  exact (hfurther _ w (KindSet.mem_singleton.mp hin)).mono (by decide) (by decide)

end

theorem declareConstant_priced {n : String} {l : Location} {tree : Constant} :
    Priced 1 1 (declareConstant n l tree) := by
  refine .of fun W s hs => Costs.look ?_
  cases s.symbols.declareConstant n l tree with
  | ok outcome =>
    refine Costs.step hs (declared_priced s) (by decide) fun _ t ht => ?_
    exact .pure ht (by decide)
  | error why => exact .of_error (e := .unfoldable why) (t := s) rfl (by omega)

theorem declareType_priced {n : String} {l : Location} {meaning : TypeExpr} :
    Priced 1 1 (declareType n l meaning) := by
  refine .of fun W s hs => Costs.look ?_
  refine Costs.step hs (declared_priced s) (by decide) fun _ t ht => ?_
  exact .pure ht (by decide)

theorem declareVariable_priced {n : String} {l : Location} {base : TypeExpr} :
    Priced 1 1 (declareVariable n l base) := by
  refine .of fun W s hs => Costs.look ?_
  refine Costs.step hs (declared_priced s) (by decide) fun _ t ht => ?_
  exact .pure ht (by decide)

theorem constantDefinition_costs : Priced 2 1 (constantDefinition recover) ∧
    ∀ s : ReaderState, s.stream.head.kind ∈ Rule.constantDefinition.starts →
      Costs ReaderState.weight s.weight 1 (-1) (constantDefinition recover) s :=
  definition_costs (fun _ => constant_priced) fun _ _ _ => declareConstant_priced

theorem constantList_priced : Priced 1 (-1) (constantList recover) :=
  definitionList_priced (by decide) (fun _ => constantDefinition_costs.1)
    fun _ s hhead => constantDefinition_costs.2 s (by rw [hhead]; decide)

theorem typeDefinition_costs : Priced 2 1 (typeDefinition recover) ∧
    ∀ s : ReaderState, s.stream.head.kind ∈ Rule.typeDefinition.starts →
      Costs ReaderState.weight s.weight 1 (-1) (typeDefinition recover) s :=
  definition_costs (fun _ => typeExpr_priced) fun _ _ _ => declareType_priced

theorem typeList_priced : Priced 1 (-1) (typeList recover) :=
  definitionList_priced (by decide) (fun _ => typeDefinition_costs.1)
    fun _ s hhead => typeDefinition_costs.2 s (by rw [hhead]; decide)

theorem variableDeclaration_costs : Priced 2 1 (variableDeclaration recover) ∧
    ∀ s : ReaderState, s.stream.head.kind ∈ Rule.variableDeclaration.starts →
      Costs ReaderState.weight s.weight 1 (-1) (variableDeclaration recover) s :=
  definition_costs (fun _ => typeIdentifier_priced.mono (by decide) (by decide))
    fun _ _ _ => declareVariable_priced

theorem variableList_priced : Priced 1 (-1) (variableList recover) :=
  definitionList_priced (by decide) (fun _ => variableDeclaration_costs.1)
    fun _ s hhead => variableDeclaration_costs.2 s (by rw [hhead]; decide)

/-! ### Statements -/

theorem assignment_priced : Priced 14 14 (assignment recover) := by
  have hcomma : ∀ {find : KindSet} (t : ReaderState), t.stream.head.kind = .comma →
      Costs ReaderState.weight t.weight 1 (-Stream.credit) (demand .comma find) t :=
    fun t hhead => demand_here_costs (by decide) hhead
  have htargets : ∀ {r}, Priced 2 1 (separated .comma (demand .comma Starts.lvalue) (lvalue r)) :=
    .separated hcomma lvalue_priced (by decide) (by decide) (by decide) (by decide)
  have hvalues : ∀ {r}, Priced 10 9
      (separated .comma (demand .comma Starts.condition) (condition r)) :=
    .separated hcomma condition_priced (by decide) (by decide) (by decide) (by decide)
  refine .attempt (k := 12) (c := 12) (fun l => .of fun W s hs => ?_) (by decide) (by decide)
    (by decide) (by decide)
  refine .step hs (htargets s) (by decide) fun targets t ht => Costs.look ?_
  refine .step ht (demand_priced t) (by decide) fun _ u hu => ?_
  refine .step hu (hvalues u) (by decide) fun values v hv => ?_
  refine .step hv (reportUnless_priced v) (by decide) fun _ w hw => Costs.look ?_
  exact .pure hw (by decide)

theorem readStatement_priced : Priced 1 0 (readStatement recover) := by
  refine .certainly (k := 1) (c := -1) (fun l t _ => ?_) (by decide) (by decide)
  refine Costs.step (p := 0) (by omega) (expect_priced (by decide) t) (by decide) fun _ u hu => ?_
  refine .step hu (lvalue_priced u) (by decide) fun target v hv => ?_
  exact .pure hv (by decide)

theorem writeStatement_priced : Priced 1 0 (writeStatement recover) := by
  refine .certainly (k := 1) (c := -1) (fun l t _ => ?_) (by decide) (by decide)
  refine Costs.step (p := 0) (by omega) (expect_priced (by decide) t) (by decide) fun _ u hu => ?_
  refine .step hu (expression_priced u) (by decide) fun value v hv => ?_
  exact .pure hv (by decide)

theorem nameAndParens_priced : Priced 3 3 (nameAndParens recover) := by
  refine .of fun W s hs => .step hs (demand_priced s) (by decide) fun _ t ht => ?_
  refine .step ht (demand_priced t) (by decide) fun _ u hu => ?_
  exact .last hu (demand_priced u) (by decide) (by decide)

theorem calledName_priced : Priced 1 0 calledName := by
  refine .of fun W s hs => Costs.look ?_
  split
  · exact .last hs (name_priced s) (by decide) (by decide)
  · exact .pure hs (by decide)

theorem callStatement_priced : Priced 1 0 (callStatement recover) := by
  refine .certainly (k := 1) (c := -1) (fun l t _ => ?_) (by decide) (by decide)
  refine Costs.step (p := 0) (by omega) (expect_priced (by decide) t) (by decide) fun _ u hu => ?_
  refine .step hu (calledName_priced u) (by decide) fun n v hv => ?_
  refine .step hv (nameAndParens_priced v) (by decide) fun _ w hw => Costs.look ?_
  exact .pure hw (by decide)

theorem skipStatement_priced : Priced 1 0 (skipStatement recover) := by
  refine .certainly (k := 1) (c := -1) (fun l t _ => ?_) (by decide) (by decide)
  refine Costs.step (p := 0) (by omega) (expect_priced (by decide) t) (by decide) fun _ u hu => ?_
  exact .pure hu (by decide)

section

variable {statement : KindSet → Reader Statement} (hstatement : ∀ r, Priced 16 16 (statement r))
include hstatement

theorem whileStatement_priced : Priced 1 0 (whileStatement statement recover) := by
  refine .certainly (k := 1) (c := -1) (fun l t _ => ?_) (by decide) (by decide)
  refine Costs.step (p := 0) (by omega) (expect_priced (by decide) t) (by decide) fun _ u hu => ?_
  refine .step hu (condition_priced u) (by decide) fun test v hv => ?_
  refine .step hv (demand_priced v) (by decide) fun _ w hw => ?_
  refine .step hw (hstatement _ w) (by decide) fun body x hx => ?_
  exact .pure hx (by decide)

theorem ifStatement_priced : Priced 1 0 (ifStatement statement recover) := by
  refine .certainly (k := 1) (c := -1) (fun l t _ => ?_) (by decide) (by decide)
  refine Costs.step (p := 0) (by omega) (expect_priced (by decide) t) (by decide) fun _ u hu => ?_
  refine .step hu (condition_priced u) (by decide) fun test v hv => ?_
  refine .step hv (demand_priced v) (by decide) fun _ w hw => ?_
  refine .step hw (hstatement _ w) (by decide) fun thenBranch x hx => ?_
  refine .step hx (demand_priced x) (by decide) fun _ y hy => ?_
  refine .step hy (hstatement _ y) (by decide) fun elseBranch z hz => ?_
  exact .pure hz (by decide)

theorem statementList_priced : Priced 18 18 (statementList statement recover) := by
  have hstatements : ∀ {r}, Priced 17 16
      (separated .semicolon (expect .semicolon) (statement r)) :=
    .separated (fun t _ => expect_priced (by decide) t) (hstatement _) (by decide) (by decide)
      (by decide) (by decide)
  refine .attempt (k := 17) (c := 16) (fun l => .of fun W s hs => ?_) (by decide) (by decide)
    (by decide) (by decide)
  refine .step hs (hstatements s) (by decide) fun statements t ht => ?_
  exact .pure ht (by decide)

theorem compoundStatement_priced : Priced 2 1 (compoundStatement statement recover) := by
  refine .attempt (k := 1) (c := -1) (fun l => .of fun W s hs => ?_) (by decide) (by decide)
    (by decide) (by decide)
  refine .step hs (expect_priced (by decide) s) (by decide) fun _ t ht => ?_
  refine .step ht (statementList_priced hstatement t) (by decide) fun list u hu => ?_
  refine .step hu (demand_priced u) (by decide) fun _ v hv => ?_
  exact .pure hv (by decide)

theorem doBranch_priced : Priced 30 30 (doBranch statement recover) := by
  refine .attempt (k := 29) (c := 28) (fun l => .of fun W s hs => ?_) (by decide) (by decide)
    (by decide) (by decide)
  refine .step hs (condition_priced s) (by decide) fun test t ht => ?_
  refine .step ht (demand_priced t) (by decide) fun _ u hu => ?_
  refine .step hu (statementList_priced hstatement u) (by decide) fun body v hv => Costs.look ?_
  split
  · refine .step hv (expect_priced (by decide) v) (by decide) fun _ w hw => ?_
    exact .pure hw (by decide)
  · exact .pure hv (by decide)

theorem doStatement_priced : Priced 1 0 (doStatement statement recover) := by
  have hbranches : ∀ {r}, Priced 31 30
      (separated .separator (expect .separator) (doBranch statement r)) :=
    .separated (fun t _ => expect_priced (by decide) t) (doBranch_priced hstatement) (by decide)
      (by decide) (by decide) (by decide)
  refine .certainly (k := 1) (c := -1) (fun l t _ => ?_) (by decide) (by decide)
  refine Costs.step (p := 0) (by omega) (expect_priced (by decide) t) (by decide) fun _ u hu => ?_
  refine .step hu (hbranches u) (by decide) fun branches v hv => ?_
  refine .step hv (demand_priced v) (by decide) fun _ w hw => ?_
  exact .pure hw (by decide)

theorem statementOver_priced : Priced 16 16 (statementOver statement recover) := by
  refine .attempt (k := 14) (c := 14) (fun l => .of fun W s hs => Costs.look ?_) (by decide)
    (by decide) (by decide) (by decide)
  split
  · exact .last hs (assignment_priced s) (by decide) (by decide)
  · exact .last hs (whileStatement_priced hstatement s) (by decide) (by decide)
  · exact .last hs (ifStatement_priced hstatement s) (by decide) (by decide)
  · exact .last hs (readStatement_priced s) (by decide) (by decide)
  · exact .last hs (writeStatement_priced s) (by decide) (by decide)
  · exact .last hs (callStatement_priced s) (by decide) (by decide)
  · exact .last hs (compoundStatement_priced hstatement s) (by decide) (by decide)
  · exact .last hs (skipStatement_priced s) (by decide) (by decide)
  · exact .last hs (doStatement_priced hstatement s) (by decide) (by decide)
  · exact .last hs (unreachable_priced (c := 0) (Int.le_refl 1) s) (by decide) (by decide)

end

theorem statementWithin_priced : ∀ n {recover}, Priced 16 16 (statementWithin n recover)
  | 0, _ => tooDeep_priced (by decide)
  | n + 1, _ => statementOver_priced fun _ => statementWithin_priced n

/-! ### Blocks and programs -/

theorem detachedProcedure_priced {n : String} {l : Location} :
    Priced 1 0 (detachedProcedure n l) := by
  refine .of fun W s hs => Costs.look ?_
  refine .step hs (setSymbols_priced s) (by decide) fun _ t ht => ?_
  exact .pure ht (by decide)

theorem procedureEntry_priced : Priced 2 1 procedureEntry := by
  refine .of fun W s hs => Costs.look (Costs.look ?_)
  split
  · refine .step hs (name_priced s) (by decide) fun n t ht => Costs.look ?_
    refine .step ht (declared_priced t) (by decide) fun added u hu => ?_
    cases added with
    | some entry => exact .pure hu (by decide)
    | none => exact .last hu (detachedProcedure_priced u) (by decide) (by decide)
  · exact .last hs (detachedProcedure_priced s) (by decide) (by decide)

theorem procedureHeader_priced : Priced 1 (-90) (procedureHeader recover) := by
  refine .certainly (k := 1) (c := -91) (fun l t _ => ?_) (by decide) (by decide)
  refine Costs.step (p := 0) (by omega) (expect_priced (by decide) t) (by decide) fun _ u hu => ?_
  refine .step hu (procedureEntry_priced u) (by decide) fun entry v hv => ?_
  refine .step hv (nameAndParens_priced v) (by decide) fun _ w hw => ?_
  exact .pure hw (by decide)

section

variable {block : Nat → KindSet → Reader Block} (hblock : ∀ n r, Priced 3 3 (block n r))
include hblock

theorem procedureDefinition_priced : Priced 1 (-1) (procedureDefinition block recover) := by
  have hbody : ∀ owner, Priced 5 4 (inScope owner fun scope => do
      demand .equals Starts.block
      block scope (recover ∪ {.semicolon})) := by
    refine fun owner => .inScope (fun scope => .of fun W s hs => ?_) (by decide) (by decide)
    refine .step hs (demand_priced s) (by decide) fun _ t ht => ?_
    exact .last ht (hblock _ _ t) (by decide) (by decide)
  refine .certainly (k := 1) (c := -2) (fun l t _ => ?_) (by decide) (by decide)
  refine Costs.step (p := 0) (by omega) (procedureHeader_priced t) (by decide) fun entry u hu => ?_
  refine .step hu (hbody _ u) (by decide) fun body v hv => ?_
  refine .step hv (demand_priced v) (by decide) fun _ w hw => ?_
  exact .pure hw (by decide)

theorem declaration_priced : Priced 1 0 (declaration block recover) := by
  refine .certainly (k := 1) (c := -1) (fun l t _ => Costs.look ?_) (by decide) (by decide)
  split
  · refine Costs.step (p := 0) (by omega) (constantList_priced t) (by decide) fun _ u hu => ?_
    exact .pure hu (by decide)
  · refine Costs.step (p := 0) (by omega) (typeList_priced t) (by decide) fun _ u hu => ?_
    exact .pure hu (by decide)
  · refine Costs.step (p := 0) (by omega) (variableList_priced t) (by decide) fun _ u hu => ?_
    exact .pure hu (by decide)
  · refine Costs.step (p := 0) (by omega) (procedureDefinition_priced hblock t) (by decide)
      fun procedure u hu => ?_
    exact .pure hu (by decide)
  · exact unreachable_priced (by decide) t

theorem blockOver_priced {statement : KindSet → Reader Statement} {scope : Nat}
    (hstatement : ∀ r, Priced 16 16 (statement r)) :
    Priced 3 3 (blockOver statement block scope recover) := by
  refine .attempt (k := 2) (c := 1) (fun l => .of fun W s hs => ?_) (by decide) (by decide)
    (by decide) (by decide)
  refine .step hs (whileIn_costs (k := 1) (fun found t _ => ?_) [] s) (by decide)
    fun found t ht => ?_
  · refine Costs.step (p := 0) (by omega) (declaration_priced hblock t) (Int.le_refl _)
      fun added u hu => ?_
    cases added with
    | some procedure => exact .pure hu (by decide)
    | none => exact .pure hu (by decide)
  · refine .step ht (compoundStatement_priced hstatement t) (by decide) fun body u hu => ?_
    exact .pure hu (by decide)

end

theorem blockWithin_priced : ∀ n {scope recover}, Priced 3 3 (blockWithin n scope recover)
  | 0, _, _ => tooDeep_priced (by decide)
  | n + 1, _, _ =>
    blockOver_priced (fun _ _ => blockWithin_priced n) fun _ => statementWithin_priced n

theorem program_priced : Priced 6 5 (program maxDepth recover) := by
  have hblock : ∀ scope, Priced 5 5 (attempt .program recover
      (fun l => .mk l scope [] (.error l)) fun _ => blockWithin maxDepth scope recover) :=
    fun _ => .attempt (fun _ => blockWithin_priced maxDepth) (by decide) (by decide) (by decide)
      (by decide)
  refine .of fun W s hs => .step hs
    (Priced.inScope (k := 6) (c := 5) (fun scope => (hblock scope).mono (by decide) (by decide))
      (by decide) (by decide) s) (by decide) fun block t ht => ?_
  exact .pure ht (by decide)

theorem wholeProgram_priced (maxDepth : Nat) : Priced 6 5 (wholeProgram maxDepth) := by
  refine .of fun W s hs => .step hs (note_priced s) (by decide) fun _ t ht => ?_
  refine .step ht (program_priced t) (by decide) fun p u hu => Costs.look ?_
  refine .step hu (note_priced u) (by decide) fun _ v hv => ?_
  exact .pure hv (by decide)

end PlZero.Grammar
