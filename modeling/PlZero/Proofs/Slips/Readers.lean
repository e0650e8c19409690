/-
  PlZero/Proofs/Slips/Readers.lean
  ================================
  **Every rule of the grammar gets over slips.**  A rule is looked for behind strays and left in
  a settled state, so that what is decided by the head token inside a rule is decided by the
  token that was meant.  The exceptions are the sign of an assignment, before which a target may
  be left whatever was typed for it, the `=` between the head and the block of a procedure, and
  the name behind `procedure` and `call`, where the head token is looked at without being looked
  for.
-/
import PlZero.Grammar.Blocks
import PlZero.Proofs.Slips.Rules

namespace PlZero.Grammar

open Reader

/-- A rule that is looked for gets over strays before it and behind it. -/
def Sought {α : Type} (D : Draft) (Q : α → α → Prop) (rule : KindSet → Reader α) : Prop :=
  ∀ recover, Calm recover →
    Mends (Loose D .nothing) (Settled D .nothing recover) Q (rule recover) (rule recover)

/-- A rule that was chosen by the head token gets over strays behind it. -/
def Chosen {α : Type} (D : Draft) (Q : α → α → Prop) (rule : KindSet → Reader α) : Prop :=
  ∀ K recover, Plain .nothing K → Calm recover →
    Mends (Settled D .nothing K) (Settled D .nothing recover) Q (rule recover) (rule recover)

theorem Sought.chosen {α : Type} {D : Draft} {Q : α → α → Prop} {rule : KindSet → Reader α}
    (h : Sought D Q rule) : Chosen D Q rule :=
  fun _ recover _ hrecover => (h recover hrecover).of_loose

variable {D : Draft} {K recover : KindSet} {lead : Lead} {P : List Stroke → Prop}
  {maxDepth : Nat}

/-! ### Expressions -/

theorem lvalue_mends (h : Tolerates .nothing recover) :
    Mends (Loose D .nothing) (Settled D .nothing recover) (Expression.Alike D.near)
      (lvalue recover) (lvalue recover) := by
  apply attempt_mends _ h
  intro l l' hl
  apply (name_mends (by decide)).bind
  rintro x _ rfl
  apply currentScope_mends.bind
  rintro scope _ rfl
  exact (expect_mends (by decide) (by decide) fun _ => rfl).bind fun _ _ _ =>
    .pure (.identifier hl x scope)

theorem multiplicative_indecisive : ∀ k ∈ multiplicativeKinds, k ∉ Lead.decisive := by
  intro k
  cases k <;> decide

theorem additive_indecisive : ∀ k ∈ additiveKinds, k ∉ Lead.decisive := by
  intro k
  cases k <;> decide

theorem relational_indecisive : ∀ k ∈ relationalKinds, k ∉ Lead.decisive := by
  intro k
  cases k <;> decide

/-- More operands behind operators. -/
theorem joined_mends {kinds : KindSet} {operator : Kind → Operator} {part : Reader Expression}
    (hkinds : ∀ k ∈ kinds, k ∉ Lead.decisive) (hequals : .equals ∉ kinds)
    (hloop : Unbounded kinds (operand operator part))
    (hpart : Mends (Loose D .nothing) (Settled D .nothing K) (Expression.Alike D.near) part part)
    {first first' : Expression} (hfirst : first.Alike D.near first') :
    Mends (Settled D .nothing K) (Settled D .nothing K) (Expression.Alike D.near)
      (joined kinds operator part first) (joined kinds operator part first') := by
  have hassign : .assign ∉ kinds := fun h => hkinds _ h (by decide)
  have hend : ∀ k ∈ kinds, k ≠ .endOfFile := fun k h hk => hkinds k h (hk ▸ by decide)
  have hplain : Plain .nothing kinds := ⟨hassign, nofun⟩
  refine whileIn_mends hassign hequals hloop ?_ hfirst
  intro left left' hleft
  apply (head_mends hplain).bind
  rintro sign _ rfl
  apply (expect_mends hplain (hend _) fun h => Lead.after_nothing (hkinds _ h)).bind
  intro _ _ _
  apply hpart.bind
  intro right right' hright
  exact .pure (.binary (Std.Refl.refl _) (operator sign.kind) hleft hright)

section

variable {inside : KindSet → Reader Expression}
  (hinside : Sought D (Expression.Alike D.near) inside)
include hinside

theorem factorOver_mends : Sought D (Expression.Alike D.near) (factorOver inside) := by
  intro recover h
  apply attempt_mends _ h.tolerates
  intro l l' hl
  apply (head_mends (by decide)).bind
  rintro first _ rfl
  split
  · exact (lvalue_mends h.tolerates).of_loose.to_loose
  · apply (number_mends (by decide)).bind
    rintro v _ rfl
    exact (expect_mends (by decide) (by decide) fun _ => rfl).bind fun _ _ _ =>
      .pure (.number hl v)
  · apply (expect_mends (by decide) (by decide) fun _ => rfl).bind
    intro _ _ _
    apply atLimit_mends.bind
    rintro limit _ rfl
    split
    · exact .loud rfl (Grows.skipParenthesised.bind fun _ => .pure)
    · apply (deeper_mends (hinside _ (h.union (by decide)))).bind
      intro e e' he
      exact (demand_mends (by decide) (by decide) h.1).bind fun _ _ _ => .pure he
  · exact unreachable_mends

theorem termOver_mends (hfactors : ∀ r, Unbounded multiplicativeKinds
      (operand multiplicative (factorOver inside r))) :
    Sought D (Expression.Alike D.near) (termOver inside) := by
  intro recover h
  have hfactor := factorOver_mends hinside (recover ∪ multiplicativeKinds) (h.union (by decide))
  apply attempt_mends _ h.tolerates
  intro l l' _
  apply hfactor.of_loose.bind
  intro first first' hfirst
  exact (joined_mends multiplicative_indecisive (by decide) (hfactors _) hfactor hfirst).to_loose

omit hinside in
theorem leadingSign_mends :
    Mends (Settled D .nothing Starts.expression) (Loose D .nothing) Eq leadingSign leadingSign := by
  apply (head_mends (by decide)).bind
  rintro sign _ rfl
  split
  · rename_i hsign
    have hkind : sign.kind ∉ Lead.decisive := additive_indecisive _ hsign
    have hend : sign.kind ≠ .endOfFile := fun hk => hkind (hk ▸ by decide)
    exact (expect_mends (by decide) (fun _ => hend) fun _ => Lead.after_nothing hkind).bind
      fun _ _ _ => .pure rfl
  · exact (Mends.pure rfl).to_loose

theorem expressionOver_mends (hfactors : ∀ r, Unbounded multiplicativeKinds
      (operand multiplicative (factorOver inside r)))
    (hterms : ∀ r, Unbounded additiveKinds (operand additive (termOver inside r))) :
    Sought D (Expression.Alike D.near) (expressionOver inside) := by
  intro recover h
  have hterm := termOver_mends hinside hfactors (recover ∪ additiveKinds) (h.union (by decide))
  apply attempt_mends _ h.tolerates
  intro l l' hl
  apply leadingSign_mends.bind
  rintro negative _ rfl
  apply hterm.bind
  intro first first' hfirst
  refine (joined_mends additive_indecisive (by decide) (hterms _) hterm ?_).to_loose
  split
  · exact .unary hl .neg hfirst
  · exact hfirst

omit hinside in
theorem relOp_mends : Chosen D Eq relOp := by
  intro K recover hplain h
  apply certainly_mends hplain _ h.tolerates
  intro l l' _
  apply (head_mends (by decide)).bind
  rintro sign _ rfl
  have hend : sign.kind ∈ relationalKinds → sign.kind ≠ .endOfFile := fun hin hk =>
    relational_indecisive _ hin (hk ▸ by decide)
  exact (expect_mends (by decide) hend fun hin =>
    Lead.after_nothing (relational_indecisive _ hin)).bind fun _ _ _ => .pure rfl

theorem conditionOver_mends (hfactors : ∀ r, Unbounded multiplicativeKinds
      (operand multiplicative (factorOver inside r)))
    (hterms : ∀ r, Unbounded additiveKinds (operand additive (termOver inside r))) :
    Sought D (Expression.Alike D.near) (conditionOver inside) := by
  intro recover h
  have hbehind : Calm (recover ∪ relationalKinds) := h.union (by decide)
  apply attempt_mends _ h.tolerates
  intro l l' _
  apply (expressionOver_mends hinside hfactors hterms _ hbehind).of_loose.bind
  intro left left' hleft
  apply (headIn_mends hbehind.plain).bind
  rintro compared _ rfl
  split
  · apply (location_mends (by decide)).bind
    intro place place' hplace
    apply (relOp_mends _ _ hbehind.plain (h.union (by decide))).bind
    rintro op _ rfl
    apply (expressionOver_mends hinside hfactors hterms _ h).of_loose.bind
    intro right right' hright
    exact (Mends.pure (.binary hplace op hleft hright)).to_loose
  · exact (Mends.pure hleft).to_loose

end

theorem conditionWithin_mends (n : Nat) :
    Sought D (Expression.Alike D.near) (conditionWithin n) := by
  induction n with
  | zero => exact fun _ _ => tooDeep_mends
  | succ n ih => exact conditionOver_mends ih (loops_end.factors n) (loops_end.terms n)

theorem condition_mends : Sought D (Expression.Alike D.near) condition :=
  conditionWithin_mends (maxNesting + 1)

theorem expression_mends : Sought D (Expression.Alike D.near) expression :=
  expressionOver_mends (conditionWithin_mends maxNesting) (loops_end.factors maxNesting)
    (loops_end.terms maxNesting)

/-! ### Statements -/

/-- Lists that are alike are padded alike. -/
theorem padded_alike {xs xs' : List Expression} {l l' : Location} (hl : D.near l l')
    (h : List.Forall₂ (Expression.Alike D.near) xs xs') (n : Nat) :
    List.Forall₂ (Expression.Alike D.near) (padded (.error l) n xs) (padded (.error l') n xs') := by
  unfold padded
  rw [← h.length_eq]
  apply List.rel_append h
  rw [List.forall₂_iff_get]
  simp [Expression.Alike.error hl]

theorem comma_mends {follow : KindSet} (h : .illegal ∉ follow) :
    Mends (Settled D .nothing {.comma}) (Loose D .nothing) Eq (demand .comma follow)
      (demand .comma follow) := by
  show Mends _ (Loose D (Lead.nothing.after .comma)) _ _ _
  exact demand_mends (by decide) (by decide) h

/-- A target may be left before `:=`, or before what was typed for it. -/
theorem assignment_mends : Sought D (Statement.Alike D.near) assignment := by
  intro recover h
  have htarget : Tolerates .nothing (recover ∪ {.assign, .equals, .comma}) := by
    refine ⟨?_, fun _ => KindSet.mem_union.mpr (.inr (by decide)), nofun⟩
    simp only [KindSet.mem_union, not_or]
    exact ⟨h.1, by decide⟩
  apply attempt_mends _ h.tolerates
  intro _ _ _
  apply (separated_mends (by decide) (by decide) (loops_end.targets _)
    (comma_mends (by decide)) (lvalue_mends htarget)).of_loose.bind
  intro targets targets' htargets
  apply (location_settled (by decide)).bind
  intro l l' hl
  apply demand_assign_mends.bind
  intro _ _ _
  apply (separated_mends (by decide) (by decide) (loops_end.values _)
    (comma_mends (by decide)) (condition_mends _ (h.union (by decide)))).bind
  intro values values' hvalues
  have hequal : targets.length = values.length ↔ targets'.length = values'.length := by
    rw [htargets.length_eq, hvalues.length_eq]
  apply (reportUnless_mends hequal hl).bind
  intro _ _ _
  apply (location_mends (by decide)).bind
  intro filler filler' hfiller
  rw [← htargets.length_eq, ← hvalues.length_eq]
  exact (Mends.pure (.assign (D.near_of_level hl) (padded_alike hfiller htargets _)
    (padded_alike hfiller hvalues _))).to_loose

theorem readStatement_mends : Chosen D (Statement.Alike D.near) readStatement := by
  intro K recover hplain h
  apply certainly_mends hplain _ h.tolerates
  intro l l' hl
  apply (expect_mends (by decide) (by decide) fun _ => rfl).bind
  intro _ _ _
  apply (lvalue_mends h.tolerates).bind
  intro target target' htarget
  exact (Mends.pure (.assign hl (.cons htarget .nil) (.cons (.read hl) .nil))).to_loose

theorem writeStatement_mends : Chosen D (Statement.Alike D.near) writeStatement := by
  intro K recover hplain h
  apply certainly_mends hplain _ h.tolerates
  intro l l' hl
  apply (expect_mends (by decide) (by decide) fun _ => rfl).bind
  intro _ _ _
  apply (expression_mends _ h).bind
  intro value value' hvalue
  exact (Mends.pure (.write hl hvalue)).to_loose

theorem nameAndParens_mends (hlead : lead.Names) (h : .illegal ∉ recover) :
    Mends (Standing D lead P)
      (Loose D (((lead.after .identifier).after .leftParen).after .rightParen)) Eq
      (nameAndParens recover) (nameAndParens recover) := by
  have hheads : lead ≠ .head ∧ lead.after .identifier ≠ .head ∧
      (lead.after .identifier).after .leftParen ≠ .head := by
    rcases hlead with rfl | rfl <;> decide
  apply (demand_mends (by decide) hheads.1 (by decide)).bind
  intro _ _ _
  apply (demand_mends (by decide) hheads.2.1 (by decide)).bind
  intro _ _ _
  exact demand_mends (by decide) hheads.2.2 h

/-- Behind `call` the head token is looked at without being looked for. -/
theorem calledName_mends : Mends (Loose D .call) (Settled D .call {.identifier}) Eq calledName
    calledName := by
  have hname : Mends (Settled D .call {.identifier}) (Settled D .call {.identifier}) Eq
      calledName calledName := by
    apply (headIs_mends (by decide)).bind
    rintro named _ rfl
    split
    · exact name_mends (by decide)
    · exact .pure rfl
  exact hname.mono (fun _ _ hs => hs.names (.inr rfl)) (fun _ _ => id) fun _ _ => id

theorem callStatement_mends : Chosen D (Statement.Alike D.near) callStatement := by
  intro K recover hplain h
  apply certainly_mends hplain _ h.tolerates
  intro l l' hl
  apply (expect_mends (by decide) (by decide) fun _ => rfl).bind
  intro _ _ _
  apply calledName_mends.bind
  rintro x _ rfl
  apply (nameAndParens_mends (.inr rfl) h.1).bind
  intro _ _ _
  apply currentScope_mends.bind
  rintro scope _ rfl
  exact .pure (.call hl x scope)

theorem skipStatement_mends : Chosen D (Statement.Alike D.near) skipStatement := by
  intro K recover hplain h
  apply certainly_mends hplain _ h.tolerates
  intro l l' hl
  exact (expect_mends (by decide) (by decide) fun _ => rfl).bind fun _ _ _ => .pure (.skip hl)

section

variable {statement : KindSet → Reader Statement}
  (hstatement : Sought D (Statement.Alike D.near) statement)
include hstatement

theorem whileStatement_mends :
    Chosen D (Statement.Alike D.near) (whileStatement statement) := by
  intro K recover hplain h
  apply certainly_mends hplain _ h.tolerates
  intro l l' hl
  apply (expect_mends (by decide) (by decide) fun _ => rfl).bind
  intro _ _ _
  apply (condition_mends _ (h.union (by decide))).bind
  intro test test' htest
  apply (demand_mends (by decide) (by decide) (by decide)).bind
  intro _ _ _
  apply (hstatement _ h).bind
  intro body body' hbody
  exact (Mends.pure (.repeated hl htest hbody)).to_loose

theorem ifStatement_mends : Chosen D (Statement.Alike D.near) (ifStatement statement) := by
  intro K recover hplain h
  apply certainly_mends hplain _ h.tolerates
  intro l l' hl
  apply (expect_mends (by decide) (by decide) fun _ => rfl).bind
  intro _ _ _
  apply (condition_mends _ (h.union (by decide))).bind
  intro test test' htest
  apply (demand_mends (by decide) (by decide) (by decide)).bind
  intro _ _ _
  apply (hstatement _ (h.union (by decide))).bind
  intro thenBranch thenBranch' hthen
  apply (demand_mends (by decide) (by decide) (by decide)).bind
  intro _ _ _
  apply (hstatement _ h).bind
  intro elseBranch elseBranch' helse
  exact (Mends.pure (.choice hl htest hthen helse)).to_loose

section

variable (hstatements : ∀ r, Unbounded {.semicolon} (further (expect .semicolon) (statement r)))
include hstatements

theorem statementList_mends : Sought D (Statement.Alike D.near) (statementList statement) := by
  intro recover h
  apply attempt_mends _ h.tolerates
  intro l l' hl
  apply (separated_mends (by decide) (by decide) (hstatements _)
    (expect_mends (by decide) (by decide) fun _ => rfl)
    (hstatement _ (h.union (by decide)))).of_loose.bind
  intro statements statements' hlist
  exact (Mends.pure (.list hl hlist)).to_loose

theorem compoundStatement_mends :
    Sought D (Statement.Alike D.near) (compoundStatement statement) := by
  intro recover h
  apply attempt_mends _ h.tolerates
  intro l l' _
  apply (expect_mends (by decide) (by decide) fun _ => rfl).bind
  intro _ _ _
  apply (statementList_mends hstatement hstatements _ (h.union (by decide))).bind
  intro list list' hlist
  exact (demand_mends (by decide) (by decide) h.1).bind fun _ _ _ => .pure hlist

theorem doBranch_mends : Sought D (Branch.Alike D.near) (doBranch statement) := by
  intro recover h
  have hexit : Calm (recover ∪ {.kwExit}) := h.union (by decide)
  apply attempt_mends _ h.tolerates
  intro l l' hl
  apply (condition_mends _ (h.union (by decide))).of_loose.bind
  intro test test' htest
  apply (demand_mends (by decide) (by decide) (by decide)).bind
  intro _ _ _
  apply (statementList_mends hstatement hstatements _ hexit).bind
  intro body body' hbody
  apply (headIs_mends hexit.plain).bind
  rintro exits _ rfl
  split
  · exact (expect_mends hexit.plain (fun _ => by decide) fun _ => rfl).bind fun _ _ _ =>
      .pure (.mk hl htest hbody true)
  · exact (Mends.pure (.mk hl htest hbody false)).to_loose

theorem doStatement_mends
    (hbranches : ∀ r, Unbounded {.separator} (further (expect .separator) (doBranch statement r))) :
    Chosen D (Statement.Alike D.near) (doStatement statement) := by
  intro K recover hplain h
  apply certainly_mends hplain _ h.tolerates
  intro l l' hl
  apply (expect_mends (by decide) (by decide) fun _ => rfl).bind
  intro _ _ _
  apply (separated_mends (by decide) (by decide) (hbranches _)
    (expect_mends (by decide) (by decide) fun _ => rfl)
    (doBranch_mends hstatement hstatements _ (h.union (by decide)))).bind
  intro branches branches' hlist
  exact (demand_mends (by decide) (by decide) h.1).bind fun _ _ _ => .pure (.guarded hl hlist)

theorem statementOver_mends
    (hbranches : ∀ r, Unbounded {.separator} (further (expect .separator) (doBranch statement r))) :
    Sought D (Statement.Alike D.near) (statementOver statement) := by
  intro recover h
  have hchosen : ∀ {rule : KindSet → Reader Statement},
      Chosen D (Statement.Alike D.near) rule →
        Mends (Settled D .nothing Starts.statement) (Loose D .nothing) (Statement.Alike D.near)
          (rule recover) (rule recover) :=
    fun hrule => (hrule Starts.statement recover (by decide) h).to_loose
  apply attempt_mends _ h.tolerates
  intro _ _ _
  apply (head_mends (by decide)).bind
  rintro first _ rfl
  split
  · exact hchosen assignment_mends.chosen
  · exact hchosen (whileStatement_mends hstatement)
  · exact hchosen (ifStatement_mends hstatement)
  · exact hchosen readStatement_mends
  · exact hchosen writeStatement_mends
  · exact hchosen callStatement_mends
  · exact hchosen (compoundStatement_mends hstatement hstatements).chosen
  · exact hchosen skipStatement_mends
  · exact hchosen (doStatement_mends hstatement hstatements hbranches)
  · exact unreachable_mends

end

end

theorem statementWithin_mends (n : Nat) :
    Sought D (Statement.Alike D.near) (statementWithin n) := by
  induction n with
  | zero => exact fun _ _ => tooDeep_mends
  | succ n ih => exact statementOver_mends ih (loops_end.statements n) (loops_end.branches n)

/-! ### Constants and types -/

theorem constantOver_mends {operand : KindSet → Reader Constant}
    (hoperand : Sought D (Constant.Alike D.near) operand) :
    Sought D (Constant.Alike D.near) (constantOver operand) := by
  intro recover h
  apply currentScope_mends.bind
  rintro scope _ rfl
  apply attempt_mends _ h.tolerates
  intro l l' hl
  apply (head_mends (by decide)).bind
  rintro first _ rfl
  split
  · apply (number_mends (by decide)).bind
    rintro v _ rfl
    exact (expect_mends (by decide) (by decide) fun _ => rfl).bind fun _ _ _ =>
      .pure (.number hl scope v)
  · apply (name_mends (by decide)).bind
    rintro x _ rfl
    exact (expect_mends (by decide) (by decide) fun _ => rfl).bind fun _ _ _ =>
      .pure (.named hl scope x)
  · apply (expect_mends (by decide) (by decide) fun _ => rfl).bind
    intro _ _ _
    apply atLimit_mends.bind
    rintro limit _ rfl
    split
    · exact .loud rfl (Grows.skipTo.bind fun _ => .pure)
    · apply (deeper_mends (hoperand _ h)).bind
      intro c c' hc
      exact (Mends.pure (.negated hl scope hc)).to_loose
  · exact unreachable_mends

theorem constantWithin_mends (n : Nat) :
    Sought D (Constant.Alike D.near) (constantWithin n) := by
  induction n with
  | zero => exact fun _ _ => tooDeep_mends
  | succ n ih => exact constantOver_mends ih

theorem constant_mends : Sought D (Constant.Alike D.near) constant :=
  constantWithin_mends (maxNesting + 1)

theorem typeIdentifier_mends : Sought D (TypeExpr.Alike D.near) typeIdentifier := by
  intro recover h
  apply attempt_mends _ h.tolerates
  intro _ _ _
  apply (name_mends (by decide)).bind
  rintro x _ rfl
  apply currentScope_mends.bind
  rintro scope _ rfl
  apply (location_mends (by decide)).bind
  intro l l' hl
  exact (expect_mends (by decide) (by decide) fun _ => rfl).bind fun _ _ _ =>
    .pure (.named x scope hl)

theorem subrangeType_mends : Sought D (TypeExpr.Alike D.near) subrangeType := by
  intro recover h
  apply attempt_mends _ h.tolerates
  intro _ _ _
  apply (expect_mends (by decide) (by decide) fun _ => rfl).bind
  intro _ _ _
  apply (constant_mends _ (h.union (by decide))).bind
  intro lower lower' hlower
  apply (demand_mends (by decide) (by decide) (by decide)).bind
  intro _ _ _
  apply (constant_mends _ (h.union (by decide))).bind
  intro upper upper' hupper
  exact (demand_mends (by decide) (by decide) h.1).bind fun _ _ _ =>
    .pure (.subrange hlower hupper)

theorem typeExpr_mends : Sought D (TypeExpr.Alike D.near) typeExpr := by
  intro recover h
  apply attempt_mends _ h.tolerates
  intro _ _ _
  apply (head_mends (by decide)).bind
  rintro first _ rfl
  split
  · exact (typeIdentifier_mends _ h).of_loose.to_loose
  · exact (subrangeType_mends _ h).of_loose.to_loose
  · exact unreachable_mends

/-! ### Definitions -/

theorem declareConstant_mends {x : String} {l l' : Location} {c c' : Constant}
    (hl : D.level l l') (hc : c.Alike D.near c') :
    Mends (Standing D lead P) (Standing D lead P) Eq (declareConstant x l c)
      (declareConstant x l' c') := by
  apply symbols_mends.bind
  intro t t' ht
  cases hrun : t.declareConstant x l c with
  | error node =>
    apply Mends.never
    intro s a u h
    cases h
  | ok outcome =>
    obtain ⟨outcome', hrun', houtcome⟩ :=
      ht.declareConstant (D.near_of_level hl) hc hrun
    rw [hrun']
    exact (declared_mends hl houtcome).bind fun _ _ _ => .pure rfl

theorem declareType_mends {x : String} {l l' : Location} {m m' : TypeExpr} (hl : D.level l l')
    (hm : m.Alike D.near m') :
    Mends (Standing D lead P) (Standing D lead P) Eq (declareType x l m) (declareType x l' m') := by
  apply symbols_mends.bind
  intro t t' ht
  have houtcome : Option.Rel (SymbolTable.Added D.near) (t.declareType x l m)
      (t'.declareType x l' m') := ht.declare (D.near_of_level hl) (.type hm)
  exact (declared_mends hl houtcome).bind fun _ _ _ => .pure rfl

theorem declareVariable_mends {x : String} {l l' : Location} {m m' : TypeExpr}
    (hl : D.level l l') (hm : m.Alike D.near m') :
    Mends (Standing D lead P) (Standing D lead P) Eq (declareVariable x l m)
      (declareVariable x l' m') := by
  apply symbols_mends.bind
  intro t t' ht
  have houtcome : Option.Rel (SymbolTable.Added D.near) (t.declareVariable x l m)
      (t'.declareVariable x l' m') := ht.declare (D.near_of_level hl) (.variableOf hm)
  exact (declared_mends hl houtcome).bind fun _ _ _ => .pure rfl

theorem definition_mends {β : Type} {Q : β → β → Prop} [Std.Refl Q] {r : Rule} {sign : Kind}
    {follow : KindSet} {meaning : KindSet → Reader β}
    {declare : String → Location → β → Reader Unit} (hsign : sign ∉ elusive ∪ Lead.decisive)
    (hfollow : .illegal ∉ follow) (hmeaning : Sought D Q meaning)
    (hdeclare : ∀ x l l' m m' P, D.level l l' → Q m m' → Mends (Standing D .nothing P)
      (Standing D .nothing P) Eq (declare x l m) (declare x l' m')) :
    Sought D Eq (definition r sign follow meaning declare) := by
  intro recover h
  simp only [KindSet.mem_union, not_or] at hsign
  have hplain : Plain .nothing r.starts := r.starts_calm.plain
  apply attempt_mends _ h.tolerates
  intro _ _ _
  apply (name_mends hplain).bind
  rintro x _ rfl
  apply (location_settled (by decide)).bind
  intro l l' hl
  apply (expect_mends hplain (fun _ => by decide) fun _ => rfl).bind
  intro _ _ _
  apply (demand_mends hsign.1 (by decide) hfollow).bind
  intro _ _ _
  rw [show (Lead.nothing.after .identifier).after sign = .nothing from Lead.after_nothing hsign.2]
  apply (hmeaning _ (h.union (by decide))).bind
  intro m m' hm
  apply (hdeclare x l l' m m' _ hl hm).bind
  intro _ _ _
  show Mends _ (Loose D (Lead.nothing.after .semicolon)) _ _ _
  exact demand_mends (by decide) (by decide) h.1

theorem constantDefinition_mends : Sought D Eq constantDefinition :=
  definition_mends (by decide) (by decide) constant_mends
    fun _ _ _ _ _ _ => declareConstant_mends

theorem typeDefinition_mends : Sought D Eq typeDefinition :=
  definition_mends (by decide) (by decide) typeExpr_mends fun _ _ _ _ _ _ => declareType_mends

theorem variableDeclaration_mends : Sought D Eq variableDeclaration :=
  definition_mends (by decide) (by decide) typeIdentifier_mends
    fun _ _ _ _ _ _ => declareVariable_mends

theorem definitionList_mends {r : Rule} {keyword : Kind} {item : KindSet → Reader Unit}
    (hkeyword : keyword ∉ Lead.decisive) (hitem : Sought D Eq item)
    (hloop : ∀ k, Unbounded {.identifier} fun _ => item k) :
    Chosen D Eq (definitionList r keyword item) := by
  intro K recover hplain h
  have hitems := hitem (recover ∪ {.identifier}) (h.union (by decide))
  have hend : keyword ≠ .endOfFile := fun hk => hkeyword (hk ▸ by decide)
  apply certainly_mends hplain _ h.tolerates
  intro _ _ _
  apply (expect_mends r.starts_calm.plain (fun _ => hend) fun _ => Lead.after_nothing hkeyword).bind
  intro _ _ _
  apply hitems.bind
  intro _ _ _
  exact (whileIn_mends (by decide) (by decide) (hloop _) (fun _ _ _ => hitems.of_loose)
    rfl).to_loose

theorem constantList_mends : Chosen D Eq constantList :=
  definitionList_mends (by decide) constantDefinition_mends loops_end.constantDefinitions

theorem typeList_mends : Chosen D Eq typeList :=
  definitionList_mends (by decide) typeDefinition_mends loops_end.typeDefinitions

theorem variableList_mends : Chosen D Eq variableList :=
  definitionList_mends (by decide) variableDeclaration_mends loops_end.variableDeclarations

/-! ### Procedures -/

theorem detachedProcedure_mends {x : String} {l l' : Location} (hl : D.near l l') :
    Mends (Standing D lead P) (Standing D lead P) (Entry.Alike D.near) (detachedProcedure x l)
      (detachedProcedure x l') := by
  apply Mends.bind (Q := SymbolTable.Added D.near)
  · apply Mends.reads
    rintro s s' ⟨_, _, hs⟩
    exact hs.symbols.append hl (.procedure none)
  · intro r r' hr
    exact (setSymbols_mends hr.table).bind fun _ _ _ => .pure hr.entry

/-- Behind `procedure` the head token is looked at without being looked for. -/
theorem procedureEntry_mends : Mends (Loose D .procedure) (Settled D .procedure {.identifier})
    (Entry.Alike D.near) procedureEntry procedureEntry := by
  have hentry : Mends (Settled D .procedure {.identifier}) (Settled D .procedure {.identifier})
      (Entry.Alike D.near) procedureEntry procedureEntry := by
    apply (location_settled (by decide)).bind
    intro l l' hl
    apply (headIs_mends (by decide)).bind
    rintro named _ rfl
    split
    · apply (name_mends (by decide)).bind
      rintro x _ rfl
      apply symbols_mends.bind
      intro t t' ht
      have houtcome : Option.Rel (SymbolTable.Added D.near) (t.declareProcedure x l)
          (t'.declareProcedure x l') := ht.declare (D.near_of_level hl) (.procedure none)
      apply (declared_mends hl houtcome).bind
      intro added added' hadded
      cases hadded with
      | none => exact detachedProcedure_mends (D.near_of_level hl)
      | some hadded => exact .pure hadded
    · exact detachedProcedure_mends (D.near_of_level hl)
  exact hentry.mono (fun _ _ hs => hs.names (.inl rfl)) (fun _ _ => id) fun _ _ => id

theorem procedureHeader_mends (hplain : Plain .nothing K) (h : Tolerates .head recover) :
    Mends (Settled D .nothing K) (Settled D .head recover) (Entry.Alike D.near)
      (procedureHeader recover) (procedureHeader recover) := by
  apply certainly_mends hplain _ h
  intro _ _ _
  apply (expect_mends (by decide) (by decide) fun _ => rfl).bind
  intro _ _ _
  apply procedureEntry_mends.bind
  intro entry entry' hentry
  exact (nameAndParens_mends (.inl rfl) h.illegal).bind fun _ _ _ => .pure hentry

section

variable {block : Nat → KindSet → Reader Block}
  (hblock : ∀ scope, Sought D (Block.Alike D.near) (block scope))
include hblock

theorem procedureDefinition_mends :
    Chosen D (Procedure.Alike D.near) (procedureDefinition block) := by
  intro K recover hplain h
  have hstart : Calm (recover ∪ ({.equals} ∪ Starts.block)) := h.union (by decide)
  have hhead : Tolerates .head (recover ∪ ({.equals} ∪ Starts.block)) := by
    refine ⟨hstart.1, fun hassign => absurd hassign hstart.2, fun _ _ k hk => ?_⟩
    exact KindSet.mem_union.mpr (.inr (KindSet.mem_union.mpr (.inr hk)))
  apply certainly_mends hplain _ h.tolerates
  intro l l' hl
  apply (procedureHeader_mends (by decide) hhead).bind
  intro entry entry' hentry
  rw [← hentry.index, ← hentry.name]
  apply Mends.bind (Q := Block.Alike D.near)
  · apply inScope_mends
    intro scope
    apply demand_equals_mends.bind
    intro _ _ _
    exact hblock scope _ (h.union (by decide))
  · intro body body' hbody
    exact (demand_mends (by decide) (by decide) h.1).bind fun _ _ _ =>
      .pure (.mk hl entry.name entry.index hbody)

theorem declaration_mends :
    Chosen D (Option.Rel (Procedure.Alike D.near)) (declaration block) := by
  intro K recover hplain h
  have hlist : ∀ {list : KindSet → Reader Unit}, Chosen D Eq list →
      Mends (Settled D .nothing Starts.declaration) (Loose D .nothing)
        (Option.Rel (Procedure.Alike D.near)) (list recover >>= fun _ => pure none)
        (list recover >>= fun _ => pure none) := by
    intro list hchosen
    apply (hchosen Starts.declaration recover (by decide) h).bind
    exact fun _ _ _ => (Mends.pure .none).to_loose
  apply certainly_mends hplain _ h.tolerates
  intro _ _ _
  apply (head_mends (by decide)).bind
  rintro first _ rfl
  split
  · exact hlist constantList_mends
  · exact hlist typeList_mends
  · exact hlist variableList_mends
  · apply (procedureDefinition_mends hblock _ _ (by decide) h).bind
    intro p p' hp
    exact (Mends.pure (.some hp)).to_loose
  · exact unreachable_mends

/-! ### Blocks and programs -/

theorem furtherDeclaration_mends {found found' : List Procedure} (h : Calm recover)
    (hfound : List.Forall₂ (Procedure.Alike D.near) found found') :
    Mends (Settled D .nothing Starts.declaration) (Settled D .nothing recover)
      (List.Forall₂ (Procedure.Alike D.near)) (furtherDeclaration block recover found)
      (furtherDeclaration block recover found') := by
  apply (declaration_mends hblock _ _ (by decide) h).bind
  intro added added' hadded
  cases hadded with
  | none => exact .pure hfound
  | some hp => exact .pure (.cons hp hfound)

theorem blockOver_mends {statement : KindSet → Reader Statement} {scope : Nat}
    (hstatement : Sought D (Statement.Alike D.near) statement)
    (hstatements : ∀ r, Unbounded {.semicolon} (further (expect .semicolon) (statement r)))
    (hdeclarations : ∀ r, Unbounded Starts.declaration (furtherDeclaration block r)) :
    Sought D (Block.Alike D.near) (blockOver statement block scope) := by
  intro recover h
  have hstart : ∀ k ∈ Starts.block, k ∈ recover ∪ Starts.block := fun k hk =>
    KindSet.mem_union.mpr (.inr hk)
  apply attempt_mends _ h.tolerates
  intro _ _ _
  apply Mends.bind (Q := List.Forall₂ (Procedure.Alike D.near))
  · have hloop := whileIn_mends (by decide) (by decide) (hdeclarations (recover ∪ Starts.block))
      (fun _ _ => furtherDeclaration_mends hblock (h.union (by decide))) .nil
    exact hloop.mono (fun _ _ hs => hs.settled_mono hstart) (fun _ _ => id) fun _ _ => id
  · intro found found' hfound
    apply (compoundStatement_mends hstatement hstatements _ h).of_loose.bind
    intro body body' hbody
    exact (Mends.pure (.mk hbody.place scope (List.rel_reverse hfound) hbody)).to_loose

end

theorem blockWithin_mends (n : Nat) :
    ∀ scope, Sought D (Block.Alike D.near) (blockWithin n scope) := by
  induction n with
  | zero => exact fun _ _ _ => tooDeep_mends
  | succ n ih =>
    exact fun _ => blockOver_mends ih (statementWithin_mends n) (loops_end.statements n)
      (loops_end.declarations n)

theorem program_mends : Sought D (Program.Alike D.near) (program maxDepth) := by
  intro recover h
  apply Mends.bind (Q := Block.Alike D.near)
  · apply inScope_mends
    intro scope
    apply attempt_mends _ h.tolerates
    intro _ _ _
    exact (blockWithin_mends maxDepth scope _ h).of_loose.to_loose
  · intro block block' hblock
    exact .pure ⟨hblock.place, hblock⟩

/-- The remark that counts the reports differs. -/
theorem wholeProgram_mends : Mends (Loose D .nothing) (Settled D .nothing {.endOfFile})
    (Program.Alike D.near) (wholeProgram maxDepth) (wholeProgram maxDepth) := by
  apply note_mends.bind
  intro _ _ _
  apply (program_mends {.endOfFile} (by decide)).bind
  intro p p' hp
  have hcount : ∀ n n', Mends (Settled D .nothing {.endOfFile}) (Settled D .nothing {.endOfFile})
      (Program.Alike D.near) (do note (.parsed n); return p) (do note (.parsed n'); return p') :=
    fun _ _ => note_mends.bind fun _ _ _ => .pure hp
  apply Mends.bind_of (Q := fun _ _ => True)
  · exact .reads fun _ _ _ => trivial
  · exact fun n => (hcount n n).grows
  · exact fun n n' _ => hcount n n'

end PlZero.Grammar
