/-
  PlZero/Proofs/Completeness/Statements.lean
  ==========================================
  **Reading a statement of the grammar** yields its tree and reports its uneven assignments,
  besides what is reported about its operands.  What can stand behind a statement is neither
  an operator nor a comma (`Follows.statement`), and behind a list of statements there is no
  semicolon either (`Follows.list`), so that nothing is taken for a part of the statement that
  is not.
-/
import PlZero.Grammar.Statements
import PlZero.Proofs.Completeness.Operands
import PlZero.Proofs.Contract.Statements

namespace PlZero.Grammar

open Reader

open PlZero.Derivation (behind partsBehind tokensBehind treesBehind_map Part Rendering Trees)

/-! ### What can follow -/

/-- What can stand behind a list of statements. -/
def Follows.list : KindSet := {.kwEnd, .kwExit, .separator, .kwOd}

/-- What can stand behind a statement. -/
def Follows.statement : KindSet := {.semicolon, .kwElse} ∪ list

/-- What can stand behind a branch. -/
def Follows.branch : KindSet := {.separator, .kwOd}

theorem Follows.statement_not_operator {k : Kind} (h : k ∈ Follows.statement) :
    k ∉ operatorKinds ∧ k ≠ .comma := by
  revert h
  cases k <;> decide

theorem Follows.list_statement {k : Kind} (h : k ∈ Follows.list) :
    k ∈ Follows.statement ∧ k ≠ .semicolon := by
  revert h
  cases k <;> decide

theorem Follows.branch_list {k : Kind} (h : k ∈ Follows.branch) :
    k ∈ Follows.list ∧ k ≠ .kwExit := by
  revert h
  cases k <;> decide

variable {E : Abort → Stream → Prop} {V : Trees} {R : Rendering} {k : Nat} {T : SymbolTable}
  {recover : KindSet} {t : Token} {rest after : List Token}

/-! ### Assignments -/

theorem targets_yields (c : Derivation.Assignment) :
    Yields E 0 T (separated .comma (demand .comma Starts.lvalue)
        (lvalue (recover ∪ {.assign, .equals, .comma})))
      ([c.target.val] ++ tokensBehind (fun t => [t.val]) c.targets) (c.sign.val :: rest)
      (c.targetTrees T.current) [] T := by
  have hsign : c.sign.val.kind ≠ .comma := by
    rw [c.sign.property]
    decide
  refine .separated_quiet (fun u : Derivation.TokenOf .identifier => [u.val])
    (fun u => Derivation.targetTree T.current u.val) (fun _ => True) hsign trivial
    (fun _ _ => trivial) (fun u _ => .demand_last u.property) ?_
  intro u v us _ hv
  refine lvalue_yields u (KindSet.mem_union.mpr (.inr ?_))
  show v.kind ∈ _
  rcases hv with hv | hv
  · rw [hv]
    decide
  · rw [hv, c.sign.property]
    decide

theorem values_yields (c : Derivation.Assignment) (hread : ∀ p ∈ c.parts, PartRead E V R p)
    (hend : t.kind ∈ recover) (hfollow : t.kind ∈ Follows.statement) :
    Yields E 0 T (separated .comma (demand .comma Starts.condition)
        (condition (recover ∪ {.comma})))
      (R.condition.tokens c.value ++ tokensBehind R.condition.tokens c.values) (t :: rest)
      (c.valueTreesIn V T.current)
      (R.condition.reports c.value ++ c.values.flatMap fun p => R.condition.reports p.2) T := by
  obtain ⟨hoperator, hcomma⟩ := Follows.statement_not_operator hfollow
  have hvalue : PartRead E V R (.condition c.value) :=
    hread _ (by simp [Derivation.Assignment.parts])
  have hvalues : ∀ p ∈ c.values, PartRead E V R (.condition p.2) := by
    intro p hp
    refine hread _ ?_
    simp only [Derivation.Assignment.parts, partsBehind, List.mem_cons, List.mem_append,
      List.mem_flatMap]
    exact .inr (.inr (.inr (.inr (.inl ⟨p, hp, .inr (.inl rfl)⟩))))
  rw [Derivation.Assignment.valueTreesIn, ← treesBehind_map _ t.location]
  refine .separated R.condition.tokens (fun _ => V.condition T.current) R.condition.reports
    (fun c => PartRead E V R (.condition c)) hcomma hvalue hvalues
    (fun u _ => .demand_last u.property) ?_
  intro c v us hc hv
  have hnext : v.kind ∈ recover ∪ {.comma} ∧ v.kind ∉ operatorKinds := by
    rcases hv with hv | hv
    · rw [hv]
      exact ⟨KindSet.mem_union.mpr (.inr (by decide)), by decide⟩
    · rw [hv]
      exact ⟨KindSet.mem_union.mpr (.inl hend), hoperator⟩
  exact hc.2 T _ (v :: us) hnext

/-- An assignment is reported if its sides differ in length. -/
theorem reportUnless_yields (c : Derivation.Assignment) :
    Yields E 0 T (reportUnless
      ((c.targetTrees T.current).length = (c.valueTreesIn V T.current).length)
      .unequalAssignment c.sign.val.location) [] after () c.complaints T := by
  have heven : (c.targetTrees T.current).length = (c.valueTreesIn V T.current).length ↔
      c.Even := by
    simp [Derivation.Assignment.targetTrees, Derivation.Assignment.valueTreesIn,
      Derivation.Assignment.Even]
  unfold reportUnless Derivation.Assignment.complaints
  by_cases h : c.Even
  · rw [if_pos (heven.mpr h), if_pos h]
    exact .pure
  · rw [if_neg (mt heven.mp h), if_neg h]
    exact .report

theorem assignment_yields (c : Derivation.Assignment) (hread : ∀ p ∈ c.parts, PartRead E V R p)
    (hend : t.kind ∈ recover) (hfollow : t.kind ∈ Follows.statement) :
    Yields E 0 T (assignment recover) (R.tokens c.parts) (t :: rest)
      (c.treeIn V T.current t.location) (R.reports c.parts) T := by
  have htokens : R.tokens c.parts =
      ([c.target.val] ++ tokensBehind (fun t => [t.val]) c.targets) ++
        c.sign.val :: (R.condition.tokens c.value ++ tokensBehind R.condition.tokens c.values) := by
    simp [Derivation.Assignment.parts, Part.tokens]
  have hreports : R.reports c.parts = (R.condition.reports c.value ++
      c.values.flatMap fun p => R.condition.reports p.2) ++ c.complaints := by
    simp [Derivation.Assignment.parts, Part.reports]
  rw [htokens, hreports]
  refine .attempt (t := c.target.val) rfl (KindSet.mem_braces.mpr c.target.property) hend ?_
  refine .quiet (targets_yields c) ?_
  refine .location rfl (.demand c.sign.property ?_)
  rw [← List.append_nil (R.condition.tokens c.value ++ _)]
  refine .bind (values_yields c hread hend hfollow) ?_
  exact .aside (reportUnless_yields c) (.location rfl .pure)

/-! ### Simple statements -/

theorem readStatement_yields (keyword : Derivation.TokenOf .kwRead)
    (target : Derivation.TokenOf .identifier) (hend : nextKind after ∈ recover) :
    Yields E 0 T (readStatement recover) [keyword.val, target.val] after
      (.assign keyword.val.location [Derivation.targetTree T.current target]
        [.read keyword.val.location]) [] T := by
  refine .certainly (t := keyword.val) rfl (KindSet.mem_braces.mpr keyword.property) hend ?_
  exact .expect keyword.property (.map (lvalue_yields target hend))

theorem writeStatement_yields (keyword : Derivation.TokenOf .kwWrite)
    (c : Derivation.Expression) (hread : PartRead E V R (.expression c))
    (hend : nextKind after ∈ recover) (hstop : nextKind after ∉ operatorKinds) :
    Yields E 0 T (writeStatement recover) (keyword.val :: R.expression.tokens c) after
      (.write keyword.val.location (V.expression T.current c)) (R.expression.reports c) T := by
  refine .certainly (t := keyword.val) rfl (KindSet.mem_braces.mpr keyword.property) hend ?_
  exact .expect keyword.property (.map (hread T recover after ⟨hend, hstop⟩))

theorem nameAndParens_yields {n : Nat} (name : Derivation.TokenOf .identifier)
    (opening : Derivation.TokenOf .leftParen) (closing : Derivation.TokenOf .rightParen) :
    Yields E n T (nameAndParens recover) [name.val, opening.val, closing.val] after () [] T :=
  .demand name.property (.demand opening.property (.demand_last closing.property))

theorem callStatement_yields (keyword : Derivation.TokenOf .kwCall)
    (name : Derivation.TokenOf .identifier) (opening : Derivation.TokenOf .leftParen)
    (closing : Derivation.TokenOf .rightParen) (hend : nextKind after ∈ recover) :
    Yields E 0 T (callStatement recover) [keyword.val, name.val, opening.val, closing.val] after
      (.call keyword.val.location name.val.payload.name T.current) [] T := by
  have hcalled : Yields E 0 T calledName [] ([name.val, opening.val, closing.val] ++ after)
      name.val.payload.name [] T := by
    refine .headIs ?_
    rw [if_pos (beq_iff_eq.mpr (by exact name.property))]
    have h : Yields E 0 T (Reader.name >>= pure) []
        ([name.val, opening.val, closing.val] ++ after) name.val.payload.name [] T :=
      .name rfl name.property .pure
    rwa [bind_pure] at h
  refine .certainly (t := keyword.val) rfl (KindSet.mem_braces.mpr keyword.property) hend ?_
  refine .expect keyword.property (.still hcalled ?_)
  exact .last (nameAndParens_yields name opening closing) (.currentScope .pure)

theorem skipStatement_yields (keyword : Derivation.TokenOf .kwSkip)
    (hend : nextKind after ∈ recover) :
    Yields E 0 T (skipStatement recover) [keyword.val] after (.skip keyword.val.location) [] T := by
  refine .certainly (t := keyword.val) rfl (KindSet.mem_braces.mpr keyword.property) hend ?_
  exact .expect keyword.property .pure

/-! ### Statements that hold statements -/

/-- A reader reads the statements that nest at most `k` deep and whose operands are read as
    they are rendered. -/
def StatementsYield (E : Abort → Stream → Prop) (V : Trees) (R : Rendering) (T : SymbolTable)
    (k : Nat) (statement : KindSet → Reader Statement) : Prop :=
  ∀ (c : Derivation.Statement) (r : KindSet) (t : Token) (rest : List Token),
    (∀ p ∈ c.parts, PartRead E V R p) → (c.depth ≤ k ∨ AdmitsTooDeep E) → t.kind ∈ r →
      t.kind ∈ Follows.statement →
        Yields E 0 T (statement r) (R.tokens c.parts) (t :: rest)
          (c.treeIn V T.current t.location) (R.reports c.parts) T

section

variable {statement : KindSet → Reader Statement}
  (hstatement : StatementsYield E V R T k statement)
include hstatement

theorem whileStatement_yields (keyword : Derivation.TokenOf .kwWhile)
    (test : Derivation.Condition) (sign : Derivation.TokenOf .kwDo) (body : Derivation.Statement)
    (htest : PartRead E V R (.condition test)) (hbody : ∀ p ∈ body.parts, PartRead E V R p)
    (hdepth : body.depth ≤ k ∨ AdmitsTooDeep E) (hend : t.kind ∈ recover)
    (hfollow : t.kind ∈ Follows.statement) :
    Yields E 0 T (whileStatement statement recover)
      (keyword.val :: (R.condition.tokens test ++ sign.val :: R.tokens body.parts)) (t :: rest)
      (.repeated keyword.val.location (V.condition T.current test)
        (body.treeIn V T.current t.location))
      (R.condition.reports test ++ R.reports body.parts) T := by
  have htest' := htest.2 T (recover ∪ {.kwDo}) (sign.val :: R.tokens body.parts ++ t :: rest)
    ⟨nextKind_mem sign _ _, nextKind_not_mem sign _ (by decide)⟩
  refine .certainly (t := keyword.val) rfl (KindSet.mem_braces.mpr keyword.property) hend ?_
  refine .expect keyword.property (.bind htest' (.demand sign.property (.map ?_)))
  exact hstatement body recover t rest hbody hdepth hend hfollow

theorem ifStatement_yields (keyword : Derivation.TokenOf .kwIf) (test : Derivation.Condition)
    (thenSign : Derivation.TokenOf .kwThen) (thenBranch : Derivation.Statement)
    (elseSign : Derivation.TokenOf .kwElse) (elseBranch : Derivation.Statement)
    (htest : PartRead E V R (.condition test)) (hthen : ∀ p ∈ thenBranch.parts, PartRead E V R p)
    (helse : ∀ p ∈ elseBranch.parts, PartRead E V R p)
    (hdepth : thenBranch.depth ≤ k ∨ AdmitsTooDeep E)
    (hdepth' : elseBranch.depth ≤ k ∨ AdmitsTooDeep E) (hend : t.kind ∈ recover)
    (hfollow : t.kind ∈ Follows.statement) :
    Yields E 0 T (ifStatement statement recover)
      (keyword.val :: (R.condition.tokens test ++ thenSign.val ::
        (R.tokens thenBranch.parts ++ elseSign.val :: R.tokens elseBranch.parts))) (t :: rest)
      (.choice keyword.val.location (V.condition T.current test)
        (thenBranch.treeIn V T.current elseSign.val.location)
        (elseBranch.treeIn V T.current t.location))
      (R.condition.reports test ++ (R.reports thenBranch.parts ++ R.reports elseBranch.parts))
      T := by
  have htest' := htest.2 T (recover ∪ {.kwThen}) (thenSign.val ::
      (R.tokens thenBranch.parts ++ elseSign.val :: R.tokens elseBranch.parts) ++ t :: rest)
    ⟨nextKind_mem thenSign _ _, nextKind_not_mem thenSign _ (by decide)⟩
  have hthen' := hstatement thenBranch (recover ∪ {.kwElse}) elseSign
    (R.tokens elseBranch.parts ++ t :: rest) hthen hdepth (nextKind_mem elseSign [] recover)
    (by rw [elseSign.property]; decide)
  refine .certainly (t := keyword.val) rfl (KindSet.mem_braces.mpr keyword.property) hend ?_
  refine .expect keyword.property (.bind htest' (.demand thenSign.property ?_))
  refine .bind hthen' (.demand elseSign.property (.map ?_))
  exact hstatement elseBranch recover t rest helse hdepth' hend hfollow

theorem statementList_yields (c : Derivation.StatementList)
    (hread : ∀ p ∈ c.parts, PartRead E V R p) (hdepth : c.depth ≤ k ∨ AdmitsTooDeep E)
    (hend : t.kind ∈ recover) (hfollow : t.kind ∈ Follows.list) :
    Yields E 0 T (statementList statement recover) (R.tokens c.parts) (t :: rest)
      (c.treeIn V T.current t.location) (R.reports c.parts) T := by
  obtain ⟨hhead, hstart⟩ := c.rendered_begins (R := R)
  obtain ⟨hstatements, hsemicolon⟩ := Follows.list_statement hfollow
  refine .attempt hhead hstart hend ?_
  obtain ⟨first, more⟩ := c
  rw [Derivation.StatementList.parts, Derivation.StatementList.partsMore_eq] at hread ⊢
  rw [Derivation.StatementList.depth, Derivation.StatementList.depthMore_eq] at hdepth
  obtain ⟨hfirst, hmore⟩ := parts_read hread hdepth
  rw [Rendering.tokens_append, Rendering.tokens_behind, Rendering.reports_append,
    Rendering.reports_behind, Derivation.StatementList.treeIn, Derivation.StatementList.treesIn_eq]
  refine .map (.separated (fun c => R.tokens c.parts)
    (fun l c => Derivation.Statement.treeIn V T.current l c) (fun c => R.reports c.parts)
    (fun c => (∀ p ∈ c.parts, PartRead E V R p) ∧ (c.depth ≤ k ∨ AdmitsTooDeep E)) hsemicolon hfirst
    hmore (fun u _ => .expect_last u.property) ?_)
  intro c v us hc hv
  have hnext : v.kind ∈ recover ∪ {.semicolon} ∧ v.kind ∈ Follows.statement := by
    rcases hv with hv | hv
    · rw [hv]
      exact ⟨KindSet.mem_union.mpr (.inr (by decide)), by decide⟩
    · rw [hv]
      exact ⟨KindSet.mem_union.mpr (.inl hend), hstatements⟩
  exact hstatement c _ v us hc.1 hc.2 hnext.1 hnext.2

/-- What stands inside a compound statement, whatever stands behind it. -/
theorem compoundBody_yields (c : Derivation.CompoundStatement) (recover : KindSet)
    (after : List Token) (hread : ∀ p ∈ c.parts, PartRead E V R p)
    (hdepth : c.depth ≤ k ∨ AdmitsTooDeep E) :
    Yields E 0 T (do
        expect .kwBegin
        let list ← statementList statement (recover ∪ {.kwEnd})
        demand .kwEnd recover
        return list)
      (R.tokens c.parts) after (c.treeIn V T.current) (R.reports c.parts) T := by
  obtain ⟨opening, list, closing⟩ := c
  rw [Derivation.CompoundStatement.parts, List.forall_mem_cons, List.forall_mem_append] at hread
  have hlist : Yields E 0 T (statementList statement (recover ∪ {.kwEnd})) (R.tokens list.parts)
      ([closing.val] ++ after) (list.treeIn V T.current closing.val.location)
      (R.reports list.parts) T :=
    statementList_yields hstatement list hread.2.1 hdepth (nextKind_mem closing [] recover)
      (by rw [closing.property]; decide)
  have htokens : R.tokens (Derivation.CompoundStatement.mk opening list closing).parts =
      opening.val :: (R.tokens list.parts ++ [closing.val]) := by
    simp [Derivation.CompoundStatement.parts, Part.tokens]
  have hreports : R.reports (Derivation.CompoundStatement.mk opening list closing).parts =
      R.reports list.parts := by
    simp [Derivation.CompoundStatement.parts, Part.reports]
  rw [htokens, hreports, Derivation.CompoundStatement.treeIn]
  exact .expect opening.property (.ending hlist (.demand closing.property .pure))

theorem compoundStatement_yields (c : Derivation.CompoundStatement)
    (hread : ∀ p ∈ c.parts, PartRead E V R p) (hdepth : c.depth ≤ k ∨ AdmitsTooDeep E)
    (hend : nextKind after ∈ recover) :
    Yields E 0 T (compoundStatement statement recover) (R.tokens c.parts) after
      (c.treeIn V T.current) (R.reports c.parts) T := by
  obtain ⟨hfirst, hkind⟩ := c.rendered_begins (R := R)
  exact .attempt hfirst (KindSet.mem_braces.mpr hkind) hend
    (compoundBody_yields hstatement c recover after hread hdepth)

theorem doBranch_yields (c : Derivation.DoBranch) (hread : ∀ p ∈ c.parts, PartRead E V R p)
    (hdepth : c.depth ≤ k ∨ AdmitsTooDeep E) (hend : t.kind ∈ recover)
    (hfollow : t.kind ∈ Follows.branch) :
    Yields E 0 T (doBranch statement recover) (R.tokens c.parts) (t :: rest)
      (c.treeIn V T.current t.location) (R.reports c.parts) T := by
  obtain ⟨hlist, hexit⟩ := Follows.branch_list hfollow
  obtain ⟨test, sign, body, exits⟩ := c
  have htest : PartRead E V R (.condition test) := by
    cases exits <;> exact hread _ List.mem_cons_self
  have htest' : ∀ us, Yields E 0 T (condition (recover ∪ {.kwThen})) (R.condition.tokens test)
      (sign.val :: us) (V.condition T.current test) (R.condition.reports test) T := fun us =>
    htest.2 T _ _ ⟨nextKind_mem sign us recover, nextKind_not_mem sign us (by decide)⟩
  have hfirst : ∀ us, (R.condition.tokens test ++ us).head? = some test.first := fun us => by
    rw [List.head?_append, htest.1, Option.some_or]
  rw [Derivation.DoBranch.depth] at hdepth
  cases exits with
  | none =>
    rw [Derivation.DoBranch.parts, List.forall_mem_cons, List.forall_mem_cons] at hread
    have hbody : Yields E 0 T (statementList statement (recover ∪ {.kwExit}))
        (R.tokens body.parts) (t :: rest) (body.treeIn V T.current t.location)
        (R.reports body.parts) T :=
      statementList_yields hstatement body hread.2.2 hdepth (KindSet.mem_union.mpr (.inl hend))
        hlist
    refine .attempt (hfirst _) test.begins.2 hend ?_
    refine .bind (htest' _) (.demand sign.property ?_)
    refine .last hbody (.headIs ?_)
    rw [if_neg (by simpa [nextKind] using hexit)]
    exact .pure
  | some keyword =>
    rw [Derivation.DoBranch.parts, List.forall_mem_cons, List.forall_mem_cons,
      List.forall_mem_append] at hread
    have hbody : Yields E 0 T (statementList statement (recover ∪ {.kwExit}))
        (R.tokens body.parts) ([keyword.val] ++ t :: rest)
        (body.treeIn V T.current keyword.val.location) (R.reports body.parts) T :=
      statementList_yields hstatement body hread.2.2.1 hdepth (nextKind_mem keyword [] recover)
        (by rw [keyword.property]; decide)
    have htokens : R.tokens (Derivation.DoBranch.mk test sign body (some keyword)).parts =
        R.condition.tokens test ++ sign.val :: (R.tokens body.parts ++ [keyword.val]) := by
      simp [Derivation.DoBranch.parts, Part.tokens]
    have hreports : R.reports (Derivation.DoBranch.mk test sign body (some keyword)).parts =
        R.condition.reports test ++ R.reports body.parts := by
      simp [Derivation.DoBranch.parts, Part.reports]
    rw [htokens, hreports]
    refine .attempt (hfirst _) test.begins.2 hend ?_
    refine .bind (htest' _) (.demand sign.property (.ending hbody (.headIs ?_)))
    rw [if_pos (beq_iff_eq.mpr (by exact keyword.property))]
    exact .expect keyword.property .pure

theorem doStatement_yields (keyword : Derivation.TokenOf .kwDo) (first : Derivation.DoBranch)
    (more : List (Derivation.TokenOf .separator × Derivation.DoBranch))
    (closing : Derivation.TokenOf .kwOd)
    (hread : ∀ p ∈ first.parts ++ partsBehind Derivation.DoBranch.parts more, PartRead E V R p)
    (hdepth : max first.depth (Derivation.DoBranch.depthMore more) ≤ k ∨ AdmitsTooDeep E)
    (hend : nextKind after ∈ recover) :
    Yields E 0 T (doStatement statement recover)
      (keyword.val :: ((R.tokens first.parts ++ tokensBehind (fun c => R.tokens c.parts) more) ++
        [closing.val]))
      after (.guarded keyword.val.location
        (first.treeIn V T.current (behind closing.val.location more) ::
          Derivation.DoBranch.treesIn V T.current closing.val.location more))
      (R.reports first.parts ++ more.flatMap fun p => R.reports p.2.parts) T := by
  rw [Derivation.DoBranch.depthMore_eq] at hdepth
  obtain ⟨hfirst, hmore⟩ := parts_read hread hdepth
  have hclosing : closing.val.kind ≠ .separator := by
    rw [closing.property]
    decide
  rw [Derivation.DoBranch.treesIn_eq]
  refine .certainly (t := keyword.val) rfl (KindSet.mem_braces.mpr keyword.property) hend ?_
  refine .expect keyword.property (.ending (.separated (fun c => R.tokens c.parts)
    (fun l c => Derivation.DoBranch.treeIn V T.current l c) (fun c => R.reports c.parts)
    (fun c => (∀ p ∈ c.parts, PartRead E V R p) ∧ (c.depth ≤ k ∨ AdmitsTooDeep E)) hclosing hfirst
    hmore (fun u _ => .expect_last u.property) ?_) (.demand closing.property .pure))
  intro c v us hc hv
  have hnext : v.kind ∈ Follows.branch := by
    rcases hv with hv | hv
    · rw [hv]
      decide
    · rw [hv, closing.property]
      decide
  exact doBranch_yields hstatement c hc.1 hc.2 (KindSet.mem_union.mpr (.inr hnext)) hnext

theorem statementOver_yields : StatementsYield E V R T (k + 1) (statementOver statement) := by
  intro c r t rest hread hdepth hend hfollow
  obtain ⟨hhead, hstart⟩ := c.rendered_begins (R := R)
  refine .attempt hhead hstart hend ?_
  cases c with
  | assign c =>
    refine .head rfl ?_
    rw [c.target.property]
    exact assignment_yields c hread hend hfollow
  | repeated keyword test sign body =>
    rw [Derivation.Statement.parts] at hread
    simp only [List.forall_mem_cons] at hread
    obtain ⟨-, htest, -, hbody⟩ := hread
    refine .head rfl ?_
    rw [keyword.property]
    exact whileStatement_yields hstatement keyword test sign body htest hbody
      (hdepth.imp_left Nat.le_of_succ_le_succ) hend hfollow
  | choice keyword test thenSign thenBranch elseSign elseBranch =>
    rw [Derivation.Statement.parts] at hread
    simp only [List.forall_mem_cons, List.forall_mem_append] at hread
    obtain ⟨-, htest, -, hthen, -, helse⟩ := hread
    have hparts : R.tokens (Derivation.Statement.choice keyword test thenSign thenBranch elseSign
        elseBranch).parts = keyword.val :: (R.condition.tokens test ++ thenSign.val ::
          (R.tokens thenBranch.parts ++ elseSign.val :: R.tokens elseBranch.parts)) := by
      simp [Derivation.Statement.parts, Part.tokens]
    have hreports : R.reports (Derivation.Statement.choice keyword test thenSign thenBranch
        elseSign elseBranch).parts = R.condition.reports test ++
          (R.reports thenBranch.parts ++ R.reports elseBranch.parts) := by
      simp [Derivation.Statement.parts, Part.reports]
    rw [hparts, hreports]
    refine .head rfl ?_
    rw [keyword.property]
    exact ifStatement_yields hstatement keyword test thenSign thenBranch elseSign elseBranch htest
      hthen helse (hdepth.imp_left fun h => (Nat.max_le.mp (Nat.le_of_succ_le_succ h)).1)
      (hdepth.imp_left fun h => (Nat.max_le.mp (Nat.le_of_succ_le_succ h)).2) hend hfollow
  | read keyword target =>
    refine .head rfl ?_
    rw [keyword.property]
    exact readStatement_yields keyword target hend
  | write keyword value =>
    have hvalue : PartRead E V R (.expression value) :=
      hread _ (List.mem_cons_of_mem _ List.mem_cons_self)
    have hparts : R.tokens (Derivation.Statement.write keyword value).parts =
        keyword.val :: R.expression.tokens value := by
      simp [Derivation.Statement.parts, Part.tokens]
    have hreports : R.reports (Derivation.Statement.write keyword value).parts =
        R.expression.reports value := by
      simp [Derivation.Statement.parts, Part.reports]
    rw [hparts, hreports]
    refine .head rfl ?_
    rw [keyword.property]
    exact writeStatement_yields keyword value hvalue hend (Follows.statement_not_operator hfollow).1
  | call keyword name opening closing =>
    refine .head rfl ?_
    rw [keyword.property]
    exact callStatement_yields keyword name opening closing hend
  | compound c =>
    obtain ⟨opening, list, closing⟩ := c
    refine .head rfl ?_
    rw [opening.property]
    exact compoundStatement_yields hstatement (.mk opening list closing) hread
      (hdepth.imp_left Nat.le_of_succ_le_succ) hend
  | skip keyword =>
    refine .head rfl ?_
    rw [keyword.property]
    exact skipStatement_yields keyword hend
  | guarded keyword first more closing =>
    have htokens : R.tokens (Derivation.Statement.guarded keyword first more closing).parts =
        keyword.val :: ((R.tokens first.parts ++ tokensBehind (fun c => R.tokens c.parts) more) ++
          [closing.val]) := by
      simp [Derivation.Statement.parts, Derivation.DoBranch.partsMore_eq, Part.tokens]
    have hreports : R.reports (Derivation.Statement.guarded keyword first more closing).parts =
        R.reports first.parts ++ more.flatMap fun p => R.reports p.2.parts := by
      simp [Derivation.Statement.parts, Derivation.DoBranch.partsMore_eq, Part.reports]
    rw [Derivation.Statement.parts, Derivation.DoBranch.partsMore_eq, ← List.append_assoc,
      List.forall_mem_cons, List.forall_mem_append] at hread
    rw [htokens, hreports]
    refine .head rfl ?_
    rw [keyword.property]
    exact doStatement_yields hstatement keyword first more closing hread.2.1
      (hdepth.imp_left Nat.le_of_succ_le_succ) hend

end

/-- Statements that nest less deep than the readers go are read. -/
theorem statementWithin_yields (k : Nat) : StatementsYield E V R T k (statementWithin k) := by
  induction k with
  | zero =>
    intro c r t rest _ hdepth _ _
    have hpos := c.depth_pos
    rcases hdepth with hdepth | hdeep
    · omega
    · exact .tooDeep hdeep
  | succ k ih => exact statementOver_yields ih

end PlZero.Grammar
