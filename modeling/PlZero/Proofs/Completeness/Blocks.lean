/-
  PlZero/Proofs/Completeness/Blocks.lean
  ======================================
  **Reading a program of the grammar** yields its tree, with the procedures of every block in
  the order of their declarations, and reports its complaints, besides what is reported about
  its operands (`wholeProgram_renders`).  The block of a procedure is read
  in a scope that begins without names, so whether a name is taken depends on the names that
  its own block declared before and on nothing else.
-/
import PlZero.Grammar.Blocks
import PlZero.Proofs.Completeness.Declarations
import PlZero.Proofs.Completeness.Statements

namespace PlZero.Grammar

open Reader

open PlZero.Derivation (nameOf redeclared addProcedure outermost Part Rendering Trees)

variable {E : Abort → Stream → Prop} {V : Trees} {R : Rendering} {n k maxDepth : Nat}
  {T : SymbolTable}
  {recover : KindSet} {after : List Token} {seen : List String}

/-! ### Procedures -/

theorem detachedProcedure_yields {x : String} {l : Location} :
    Yields E n T (detachedProcedure x l) [] after (T.addDetached x l).1 []
      (T.addDetached x l).2 :=
  .look (fun _ hs => by rw [hs.symbols]) (.still .setSymbols .pure)

/-- A procedure is declared, or its name is reported and its entry has no name. -/
theorem procedureEntry_yields (hseen : T.Holds seen) (name : Derivation.TokenOf .identifier) :
    Yields E n T procedureEntry [] (name.val :: after) (addProcedure T name).1
      (redeclared .procedureName seen name) (addProcedure T name).2 := by
  refine .location rfl (.headIs ?_)
  rw [if_pos (beq_iff_eq.mpr (by exact name.property))]
  refine .name rfl name.property (.symbols ?_)
  refine .aside (declared_yields hseen .procedureName name (.procedure none)) ?_
  unfold addProcedure SymbolTable.declareProcedure
  cases T.declare (nameOf name) name.val.location (.procedure none) with
  | none => exact detachedProcedure_yields
  | some r => exact .pure

theorem procedureHeader_yields (hseen : T.Holds seen)
    (keyword : Derivation.TokenOf .kwProcedure) (name : Derivation.TokenOf .identifier)
    (opening : Derivation.TokenOf .leftParen) (closing : Derivation.TokenOf .rightParen)
    (hend : nextKind after ∈ recover) :
    Yields E n T (procedureHeader recover) [keyword.val, name.val, opening.val, closing.val]
      after (addProcedure T name).1 (redeclared .procedureName seen name)
      (addProcedure T name).2 := by
  refine .certainly (t := keyword.val) rfl (KindSet.mem_braces.mpr keyword.property) hend ?_
  refine .expect keyword.property (.aside (procedureEntry_yields hseen name) ?_)
  exact .map (g := fun _ => (addProcedure T name).1) (nameAndParens_yields name opening closing)

/-- A reader reads the blocks that nest at most `k` deep and whose operands are read as they
    are rendered, in a fresh scope. -/
def BlocksYield (E : Abort → Stream → Prop) (V : Trees) (R : Rendering) (k : Nat)
    (block : Nat → KindSet → Reader Block) : Prop :=
  ∀ (c : Derivation.Block) (T : SymbolTable) (r : KindSet) (after : List Token), T.Holds [] →
    (∀ p ∈ c.parts, PartRead E V R p) → (c.depth ≤ k ∨ AdmitsTooDeep E) → Signless r →
      nextKind after ∈ r →
        Yields E 0 T (block T.current r) (R.tokens c.parts) after (c.treeIn V T)
          (R.reports c.parts) (c.tableIn V T)

section

variable {block : Nat → KindSet → Reader Block} (hblock : BlocksYield E V R k block)
include hblock

theorem procedureDefinition_yields (hseen : T.Holds seen)
    (keyword : Derivation.TokenOf .kwProcedure) (name : Derivation.TokenOf .identifier)
    (opening : Derivation.TokenOf .leftParen) (closing : Derivation.TokenOf .rightParen)
    (sign : Derivation.TokenOf .equals) (c : Derivation.Block)
    (semicolon : Derivation.TokenOf .semicolon) (hread : ∀ p ∈ c.parts, PartRead E V R p)
    (hdepth : c.depth ≤ k ∨ AdmitsTooDeep E) (hsignless : Signless recover)
    (hend : nextKind after ∈ recover) :
    let d : Derivation.Declaration := .procedure keyword name opening closing sign c semicolon
    Yields E 0 T (procedureDefinition block recover) (R.tokens (d.parts seen)) after
      (.mk keyword.val.location (addProcedure T name).1.name (addProcedure T name).1.index
        (c.treeIn V ((addProcedure T name).2.enter (addProcedure T name).1.index).2))
      (R.reports (d.parts seen)) (d.tableIn V T) := by
  intro d
  obtain ⟨U, hleave, -, -⟩ :=
    c.tableIn_leave V (addProcedure T name).2 (addProcedure T name).1.index
  have htable : d.tableIn V T = U := by
    simp only [d, Derivation.Declaration.tableIn, hleave, Option.getD_some]
  have htokens : R.tokens (d.parts seen) = [keyword.val, name.val, opening.val, closing.val] ++
      ((sign.val :: R.tokens c.parts) ++ [semicolon.val]) := by
    simp [d, Derivation.Declaration.parts, Part.tokens]
  have hreports : R.reports (d.parts seen) =
      redeclared .procedureName seen name ++ R.reports c.parts := by
    simp [d, Derivation.Declaration.parts, Part.reports]
  have hsign : nextKind ((sign.val :: R.tokens c.parts ++ [semicolon.val]) ++ after) ∈
      recover ∪ ({.equals} ∪ Starts.block) := by
    rw [KindSet.mem_union, KindSet.mem_union, KindSet.mem_braces]
    exact .inr (.inl sign.property)
  have hheader := procedureHeader_yields (E := E) (n := 0) hseen keyword name opening closing hsign
  have hbody := hblock c ((addProcedure T name).2.enter (addProcedure T name).1.index).2
    (recover ∪ {.semicolon}) ([semicolon.val] ++ after) (SymbolTable.enter_holds _ _) hread hdepth
    (hsignless.union (by decide)) (nextKind_mem semicolon after recover)
  have hscope : Yields E 0 (addProcedure T name).2
      (inScope (addProcedure T name).1.index fun scope => do
        demand .equals Starts.block
        block scope (recover ∪ {.semicolon}))
      (sign.val :: R.tokens c.parts) ([semicolon.val] ++ after)
      (c.treeIn V ((addProcedure T name).2.enter (addProcedure T name).1.index).2)
      (R.reports c.parts) U :=
    .inScope (.demand sign.property hbody) hleave
  rw [htable, htokens, hreports]
  refine .certainly (t := keyword.val) rfl (KindSet.mem_braces.mpr keyword.property) hend ?_
  exact hheader.bind (hscope.ending (.demand semicolon.property .pure))

theorem declaration_yields (d : Derivation.Declaration) (hseen : T.Holds seen)
    (hread : ∀ p ∈ d.parts seen, PartRead E V R p) (hdepth : d.depth ≤ k ∨ AdmitsTooDeep E)
    (hsignless : Signless recover) (hend : nextKind after ∈ recover)
    (hstop : nextKind after ≠ .identifier) :
    Yields E 0 T (declaration block recover) (R.tokens (d.parts seen)) after
      (d.procedureIn? V T).head? (R.reports (d.parts seen)) (d.tableIn V T) := by
  obtain ⟨hhead, hstart⟩ := d.rendered_begins (R := R) seen
  refine .certainly hhead hstart hend ?_
  cases d with
  | constantList d =>
    refine .head rfl ?_
    rw [d.keyword.property]
    exact .map (constantList_yields d hread hsignless hend hstop hseen)
  | typeList d =>
    refine .head rfl ?_
    rw [d.keyword.property]
    exact .map (typeList_yields d hread hsignless hend hstop hseen)
  | variableList d =>
    refine .head rfl ?_
    rw [d.keyword.property]
    exact .map (variableList_yields d hend hstop hseen)
  | procedure keyword name opening closing sign c semicolon =>
    have hbody : ∀ p ∈ c.parts, PartRead E V R p := fun p hp =>
      hread p (by simp [Derivation.Declaration.parts, hp])
    refine .head rfl ?_
    rw [keyword.property]
    exact .map (procedureDefinition_yields hblock hseen keyword name opening closing sign c
      semicolon hbody hdepth hsignless hend)

/-- The declarations of a block, each with the table and the names that those before it
    left. -/
theorem declarations_turns (recover : KindSet) (after : List Token)
    (body : Derivation.CompoundStatement) (hsignless : Signless recover) :
    ∀ (ds : List Derivation.Declaration) (T : SymbolTable) (seen : List String)
      (found : List Procedure), T.Holds seen →
        (∀ p ∈ Derivation.Declaration.partsAll seen ds, PartRead E V R p) →
        (∀ d ∈ ds, d.depth ≤ k ∨ AdmitsTooDeep E) →
        Turns E 0 Starts.declaration (fun found => do
            match ← declaration block (recover ∪ Starts.block) with
            | some procedure => return procedure :: found
            | none => return found)
          (R.tokens body.parts ++ after) T found
          (R.tokens (Derivation.Declaration.partsAll seen ds))
          ((Derivation.Declaration.proceduresIn V T ds).reverse ++ found)
          (R.reports (Derivation.Declaration.partsAll seen ds))
          (Derivation.Declaration.tableAllIn V T ds) := by
  intro ds
  induction ds with
  | nil => exact fun _ _ _ _ _ _ => .done
  | cons d more ih =>
    intro T seen found hseen hread hdepth
    obtain ⟨hd, hmore⟩ := List.forall_mem_append.mp hread
    obtain ⟨hhead, hstart⟩ := d.rendered_begins (R := R) seen
    have hnext : nextKind (R.tokens (Derivation.Declaration.partsAll (d.names seen) more) ++
        (R.tokens body.parts ++ after)) ∈ Starts.block := by
      cases more with
      | nil =>
        obtain ⟨hfirst, hkind⟩ := body.rendered_begins (R := R)
        rw [Derivation.Declaration.partsAll, R.tokens_nil, List.nil_append,
          nextKind_of_head? hfirst, hkind]
        decide
      | cons x more =>
        obtain ⟨hfirst, hkind⟩ := x.rendered_begins (R := R) (d.names seen)
        rw [Derivation.Declaration.partsAll, R.tokens_append, List.append_assoc,
          nextKind_of_head? hfirst]
        exact KindSet.mem_union.mpr (.inl hkind)
    have hstop : nextKind (R.tokens (Derivation.Declaration.partsAll (d.names seen) more) ++
        (R.tokens body.parts ++ after)) ≠ .identifier := ne_of_mem_of_not_mem hnext (by decide)
    have hfirst := declaration_yields hblock d hseen hd (hdepth d List.mem_cons_self)
      (hsignless.union (by decide)) (KindSet.mem_union.mpr (.inr hnext)) hstop
    have hrest := ih (d.tableIn V T) (d.names seen) ((d.procedureIn? V T).reverse ++ found)
      (d.tableIn_holds hseen) hmore fun x hx => hdepth x (List.mem_cons_of_mem _ hx)
    rw [Derivation.Declaration.proceduresIn, List.reverse_append, List.append_assoc,
      Derivation.Declaration.partsAll, R.tokens_append, R.reports_append]
    refine .turn hhead hstart ?_ hrest
    refine .last hfirst ?_
    cases d <;> exact .pure

/-- A block whose body is read together with tokens behind it, of which `more` is reported. -/
theorem blockOver_yields_of {statement : KindSet → Reader Statement}
    {declarations : List Derivation.Declaration} {body : Derivation.CompoundStatement}
    (us : List Token) (more : List Diagnostic) (hfresh : T.Holds [])
    (hread : ∀ p ∈ (Derivation.Block.mk declarations body).parts, PartRead E V R p)
    (hdepth : (Derivation.Block.mk declarations body).depth ≤ k + 1 ∨ AdmitsTooDeep E)
    (hsignless : Signless recover) (hend : nextKind after ∈ recover)
    (hbody : ∀ U : SymbolTable, U.current = T.current →
      (∀ p ∈ body.parts, PartRead E V R p) → (body.depth ≤ k ∨ AdmitsTooDeep E) →
        Yields E 0 U (compoundStatement statement recover) (R.tokens body.parts ++ us) after
          (body.treeIn V U.current) (R.reports body.parts ++ more) U) :
    let c := Derivation.Block.mk declarations body
    Yields E 0 T (blockOver statement block T.current recover) (R.tokens c.parts ++ us) after
      (c.treeIn V T) (R.reports c.parts ++ more) (c.tableIn V T) := by
  intro c
  obtain ⟨hhead, hstart⟩ := c.rendered_begins (R := R)
  have hfirst : (R.tokens c.parts ++ us).head? = (R.tokens c.parts).head? := by
    rw [List.head?_append, hhead, Option.some_or]
  refine .attempt (hfirst.trans hhead) hstart hend ?_
  obtain ⟨hdeclarations, hstatements⟩ := List.forall_mem_append.mp hread
  rw [Derivation.Block.depth, Derivation.Declaration.depthAll_eq] at hdepth
  have hdepths : (Derivation.most Derivation.Declaration.depth declarations ≤ k ∧ body.depth ≤ k) ∨
      AdmitsTooDeep E := hdepth.imp_left fun h => Nat.max_le.mp (Nat.le_of_succ_le_succ h)
  have hturns := declarations_turns hblock recover (us ++ after) body hsignless declarations T [] []
    hfresh hdeclarations
    (fun d hd => hdepths.imp_left fun h => Nat.le_trans (Derivation.le_most hd) h.1)
  rw [← List.append_assoc] at hturns
  have hstop : nextKind (R.tokens body.parts ++ us ++ after) ∉ Starts.declaration := by
    obtain ⟨hfirst, hkind⟩ := body.rendered_begins (R := R)
    rw [List.append_assoc, nextKind_of_head? hfirst, hkind]
    decide
  have hscope := (Derivation.Declaration.tableAllIn_kept (V := V) T declarations).current
  have hcompound := hbody (Derivation.Declaration.tableAllIn V T declarations) hscope hstatements
    (hdepths.imp_left And.right)
  rw [hscope] at hcompound
  have hprocedures : (Derivation.Declaration.proceduresIn V T declarations) =
      ((Derivation.Declaration.proceduresIn V T declarations).reverse ++ []).reverse := by simp
  rw [Derivation.Block.parts, Derivation.Block.treeIn, R.tokens_append, R.reports_append,
    hprocedures, List.append_assoc, List.append_assoc]
  exact .bind (hturns.whileIn hstop) (.map hcompound)

theorem blockOver_yields {statement : KindSet → Reader Statement}
    (hstatement : ∀ T, StatementsYield E V R T k statement) :
    BlocksYield E V R (k + 1) (blockOver statement block) := by
  intro c T r after hfresh hread hdepth hsignless hend
  obtain ⟨declarations, body⟩ := c
  have h := blockOver_yields_of hblock [] [] hfresh hread hdepth hsignless hend
    fun U _ hread hdepth => by
      rw [List.append_nil, List.append_nil]
      exact compoundStatement_yields (hstatement U) body hread hdepth hend
  simp only [List.append_nil] at h
  exact h

end

/-- Blocks that nest less deep than the readers go are read. -/
theorem blockWithin_yields (k : Nat) : BlocksYield E V R k (blockWithin k) := by
  induction k with
  | zero =>
    intro c T r after _ _ hdepth _ _
    have hpos := c.depth_pos
    rcases hdepth with hdepth | hdeep
    · omega
    · exact .tooDeep hdeep
  | succ k ih => exact blockOver_yields ih fun T => statementWithin_yields k

/-! ### Programs -/

theorem program_yields (c : Derivation.Block) (recover : KindSet) (after : List Token)
    (hread : ∀ p ∈ c.parts, PartRead E V R p) (hdepth : c.depth ≤ maxDepth ∨ AdmitsTooDeep E)
    (hsignless : Signless recover) (hend : nextKind after ∈ recover) :
    ∃ U, (c.tableIn V outermost).leave = some U ∧
      Yields E 0 .initial (program maxDepth recover) (R.tokens c.parts) after (c.programIn V)
        (R.reports c.parts) U := by
  obtain ⟨hhead, hstart⟩ := c.rendered_begins (R := R)
  obtain ⟨U, hleave, -, -⟩ := c.tableIn_leave V .initial SymbolTable.mainIndex
  have hblock := blockWithin_yields (E := E) maxDepth c outermost recover after
    (SymbolTable.enter_holds _ _) hread hdepth hsignless hend
  exact ⟨U, hleave, .map (.inScope (.attempt hhead hstart hend hblock) hleave)⟩

/-- A program whose operands are read as they are rendered is read as its tree. -/
theorem wholeProgram_renders (c : Derivation.Block) (hread : ∀ p ∈ c.parts, PartRead E V R p)
    (hdepth : c.depth ≤ maxDepth ∨ AdmitsTooDeep E) :
    ∃ U, (c.tableIn V outermost).leave = some U ∧
      Yields E 0 .initial (wholeProgram maxDepth) (R.tokens c.parts) [] (c.programIn V)
        (R.reports c.parts) U := by
  obtain ⟨U, hleave, hprogram⟩ :=
    program_yields c {.endOfFile} [] hread hdepth (by decide) (by decide)
  refine ⟨U, hleave, .still .note ?_⟩
  exact .last hprogram (.glance fun _ => .still .note .pure)

end PlZero.Grammar
