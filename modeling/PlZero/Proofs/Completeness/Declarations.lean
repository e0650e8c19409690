/-
  PlZero/Proofs/Completeness/Declarations.lean
  ============================================
  **Reading declarations of the grammar** adds them to the table one after another.  A name
  that the scope holds already is reported, and nothing else is but what is reported about
  the constants of the declarations.
-/
import PlZero.Proofs.Completeness.Operands
import PlZero.Proofs.Derivation.Table

namespace PlZero.Grammar

open Reader

open PlZero.Derivation (nameOf redeclared outcomeOf addConstantIn addTypeIn addVariable Part
  Rendering Trees)

variable {E : Abort → Stream → Prop} {V : Trees} {R : Rendering} {n : Nat} {T U : SymbolTable}
  {recover : KindSet} {after : List Token} {seen : List String}

/-! ### Names -/

/-- A declaration is taken over, or its name is reported. -/
theorem declared_yields (hseen : T.Holds seen) (what : Declared) (t : Token) (m : Meaning) :
    Yields E n T (declared what (nameOf t) t.location (T.declare (nameOf t) t.location m))
      [] after ((T.declare (nameOf t) t.location m).map Prod.fst) (redeclared what seen t)
      (outcomeOf T (T.declare (nameOf t) t.location m)) := by
  unfold SymbolTable.declare redeclared
  by_cases hx : nameOf t ∈ seen
  · rw [if_pos (hseen.isDeclared.mpr hx), if_pos hx]
    exact .aside .report .pure
  · rw [if_neg (mt hseen.isDeclared.mp hx), if_neg hx]
    exact .still .setSymbols .pure

theorem declareConstant_yields (hseen : T.Holds seen)
    (d : Derivation.Definition .equals Derivation.Constant) :
    Yields E n T (declareConstant (nameOf d.name) d.name.val.location
      (V.constant T.current d.meaning)) [] after () (redeclared .constantName seen d.name)
      (addConstantIn V T d) := by
  obtain ⟨value, hok, heq⟩ := Derivation.addConstantIn_eq V hseen.current_lt d
  refine .symbols ?_
  rw [hok, heq]
  exact .map (g := fun _ => ()) (declared_yields hseen _ _ _)

theorem declareType_yields (hseen : T.Holds seen)
    (d : Derivation.Definition .equals Derivation.TypeForm) :
    Yields E n T (declareType (nameOf d.name) d.name.val.location (d.meaning.treeIn V T.current))
      [] after () (redeclared .typeName seen d.name) (addTypeIn V T d) :=
  .symbols (.map (g := fun _ => ()) (declared_yields hseen _ _ _))

theorem declareVariable_yields (hseen : T.Holds seen)
    (d : Derivation.Definition .colon (Derivation.TokenOf .identifier)) :
    Yields E n T (declareVariable (nameOf d.name) d.name.val.location
      (.named (nameOf d.meaning) T.current d.meaning.val.location))
      [] after () (redeclared .variableName seen d.name) (addVariable T d) :=
  .symbols (.map (g := fun _ => ()) (declared_yields hseen _ _ _))

/-! ### Definitions -/

section

variable {β γ : Type} {r : Rule} {keyword sign : Kind} {what : Declared}
  {meant : γ → List Part}

theorem definition_yields {follow : KindSet} {meaning : KindSet → Reader β}
    {declare : String → Location → β → Reader Unit} {d : Derivation.Definition sign γ} {m : β}
    (hrule : r.starts = {.identifier}) (hend : nextKind after ∈ recover)
    (hmeaning : ∀ us, nextKind us ∈ recover ∪ {.semicolon} →
      Yields E n T (meaning (recover ∪ {.semicolon})) (R.tokens (meant d.meaning)) us m
        (R.reports (meant d.meaning)) T)
    (hdeclare : ∀ us, Yields E n T (declare (nameOf d.name) d.name.val.location m) [] us ()
      (redeclared what seen d.name) U) :
    Yields E n T (definition r sign follow meaning declare recover)
      (R.tokens (d.parts what meant seen)) after () (R.reports (d.parts what meant seen)) U := by
  have hstart : d.name.val.kind ∈ r.starts := by
    rw [hrule, KindSet.mem_braces]
    exact d.name.property
  have htokens : R.tokens (d.parts what meant seen) =
      d.name.val :: d.sign.val :: (R.tokens (meant d.meaning) ++ [d.semicolon.val]) := by
    simp [Derivation.Definition.parts, Part.tokens]
  have hreports : R.reports (d.parts what meant seen) =
      R.reports (meant d.meaning) ++ redeclared what seen d.name := by
    simp [Derivation.Definition.parts, Part.reports]
  rw [htokens, hreports]
  refine .attempt (t := d.name.val) rfl hstart hend ?_
  refine .name rfl d.name.property (.location rfl (.expect d.name.property ?_))
  refine .demand d.sign.property (.bind (hmeaning _ (nextKind_mem d.semicolon _ _)) ?_)
  exact .aside (hdeclare _) (.demand_last d.semicolon.property)

/-- Definitions are added to the table in order, each with the names before it taken. -/
theorem definitionList_yields {item : KindSet → Reader Unit}
    {add : SymbolTable → Derivation.Definition sign γ → SymbolTable}
    (d : Derivation.Definitions keyword sign γ) (hrule : r.starts = {keyword})
    (hend : nextKind after ∈ recover) (hstop : nextKind after ≠ .identifier)
    (hseen : T.Holds seen)
    (hitem : ∀ x ∈ d.all, ∀ (T : SymbolTable) (seen : List String) (us : List Token),
      T.Holds seen → nextKind us ∈ recover ∪ {.identifier} →
        Yields E n T (item (recover ∪ {.identifier})) (R.tokens (x.parts what meant seen)) us ()
          (R.reports (x.parts what meant seen)) (add T x))
    (hadd : ∀ {T names}, T.Holds names → ∀ x, (add T x).Holds (nameOf x.name :: names)) :
    let ps := Part.token d.keyword.val :: Derivation.Definition.partsAll what meant seen d.all
    Yields E n T (definitionList r keyword item recover) (R.tokens ps) after () (R.reports ps)
      (d.all.foldl add T) := by
  intro ps
  have hstart : d.keyword.val.kind ∈ r.starts := by
    rw [hrule, KindSet.mem_braces]
    exact d.keyword.property
  -- behind a definition stands the name of the next one, or what stands behind them all
  have hnext : ∀ (more : List (Derivation.Definition sign γ)) (seen : List String),
      nextKind (R.tokens (Derivation.Definition.partsAll what meant seen more) ++ after) ∈
        recover ∪ {.identifier} := by
    intro more seen
    cases more with
    | nil => exact KindSet.mem_union.mpr (.inl hend)
    | cons x more => exact nextKind_mem x.name _ _
  have hturns : ∀ (more : List (Derivation.Definition sign γ)) (T : SymbolTable)
      (seen : List String), T.Holds seen → (∀ x ∈ more, x ∈ d.all) →
        Turns E n {.identifier} (fun _ => item (recover ∪ {.identifier})) after T ()
          (R.tokens (Derivation.Definition.partsAll what meant seen more)) ()
          (R.reports (Derivation.Definition.partsAll what meant seen more))
          (more.foldl add T) := by
    intro more
    induction more with
    | nil => exact fun _ _ _ _ => .done
    | cons x more ih =>
      intro T seen hseen hmore
      have hx := hitem x (hmore x List.mem_cons_self) T seen _ hseen
        (hnext more (nameOf x.name :: seen))
      rw [Derivation.Definition.partsAll, R.tokens_append, R.reports_append]
      refine .turn rfl (KindSet.mem_braces.mpr x.name.property) hx (ih _ _ (hadd hseen x) ?_)
      exact fun y hy => hmore y (List.mem_cons_of_mem _ hy)
  refine .certainly (t := d.keyword.val) rfl hstart hend (.expect d.keyword.property ?_)
  have hfirst := hitem d.first List.mem_cons_self T seen _ hseen
    (hnext d.more (nameOf d.first.name :: seen))
  have hmore := hturns d.more (add T d.first) _ (hadd hseen d.first)
    fun x hx => List.mem_cons_of_mem _ hx
  have hall := hfirst.bind (hmore.whileIn (by rw [KindSet.mem_braces]; exact hstop))
  rwa [← R.tokens_append, ← R.reports_append] at hall

end

/-! ### Lists of constants, types and variables -/

/-- What holds of the parts of definitions holds of the parts of what they mean. -/
theorem meanings_read {sign : Kind} {γ : Type} {what : Declared} {meant : γ → List Part}
    {x : Derivation.Definition sign γ} {ds : List (Derivation.Definition sign γ)}
    (hread : ∀ p ∈ Derivation.Definition.partsAll what meant seen ds, PartRead E V R p)
    (hx : x ∈ ds) : ∀ p ∈ meant x.meaning, PartRead E V R p := by
  induction ds generalizing seen with
  | nil => exact absurd hx List.not_mem_nil
  | cons d more ih =>
    obtain ⟨hd, hmore⟩ := List.forall_mem_append.mp hread
    rcases List.mem_cons.mp hx with rfl | hx
    · rw [Derivation.Definition.parts, List.forall_mem_cons, List.forall_mem_cons,
        List.forall_mem_append] at hd
      exact hd.2.2.1
    · exact ih hmore hx

theorem constantList_yields (d : Derivation.Definitions .kwConst .equals Derivation.Constant)
    (hread : ∀ p ∈ (Derivation.Declaration.constantList d).parts seen, PartRead E V R p)
    (hsignless : Signless recover) (hend : nextKind after ∈ recover)
    (hstop : nextKind after ≠ .identifier) (hseen : T.Holds seen) :
    Yields E 0 T (constantList recover)
      (R.tokens ((Derivation.Declaration.constantList d).parts seen)) after ()
      (R.reports ((Derivation.Declaration.constantList d).parts seen))
      (d.all.foldl (addConstantIn V) T) := by
  obtain ⟨-, hread⟩ := List.forall_mem_cons.mp hread
  refine definitionList_yields d rfl hend hstop hseen ?_ Derivation.addConstantIn_holds
  intro x hx T seen us hseen hus
  have hx' := meanings_read hread hx _ List.mem_cons_self
  have hsignless' : Signless (recover ∪ {.identifier} ∪ {.semicolon}) :=
    (hsignless.union (by decide)).union (by decide)
  refine definition_yields rfl hus (fun us hus => ?_) fun us => declareConstant_yields hseen x
  rw [R.tokens_cons, R.tokens_nil, R.reports_cons, R.reports_nil, List.append_nil,
    List.append_nil]
  exact hx' T _ us ⟨hus, hsignless'⟩

theorem typeIdentifier_yields (t : Derivation.TokenOf .identifier)
    (hend : nextKind after ∈ recover) :
    Yields E n T (typeIdentifier recover) [t.val] after
      (.named (nameOf t) T.current t.val.location) [] T := by
  refine .attempt (t := t.val) rfl (KindSet.mem_braces.mpr t.property) hend ?_
  exact .name rfl t.property (.currentScope (.location rfl (.expect t.property .pure)))

theorem typeExpr_yields (c : Derivation.TypeForm) (hread : ∀ p ∈ c.parts, PartRead E V R p)
    (hsignless : Signless recover) (hend : nextKind after ∈ recover) :
    Yields E 0 T (typeExpr recover) (R.tokens c.parts) after (c.treeIn V T.current)
      (R.reports c.parts) T := by
  cases c with
  | name t =>
    refine .attempt (t := t.val) rfl (by rw [t.property]; decide) hend (.head rfl ?_)
    rw [t.property]
    exact typeIdentifier_yields t hend
  | subrange opening lower range upper closing =>
    have hlower : PartRead E V R (.constant lower) :=
      hread _ (by simp [Derivation.TypeForm.parts])
    have hupper : PartRead E V R (.constant upper) :=
      hread _ (by simp [Derivation.TypeForm.parts])
    have hlower' := hlower T (recover ∪ {.range})
      (range.val :: (R.constant.tokens upper ++ [closing.val]) ++ after)
      ⟨nextKind_mem range _ _, hsignless.union (by decide)⟩
    have hupper' := hupper T (recover ∪ {.rightBracket}) ([closing.val] ++ after)
      ⟨nextKind_mem closing _ _, hsignless.union (by decide)⟩
    have htokens : R.tokens (Derivation.TypeForm.subrange opening lower range upper closing).parts =
        opening.val :: (R.constant.tokens lower ++
          range.val :: (R.constant.tokens upper ++ [closing.val])) := by
      simp [Derivation.TypeForm.parts, Part.tokens]
    have hreports : R.reports
        (Derivation.TypeForm.subrange opening lower range upper closing).parts =
        R.constant.reports lower ++ R.constant.reports upper := by
      simp [Derivation.TypeForm.parts, Part.reports]
    rw [htokens, hreports]
    refine .attempt (t := opening.val) rfl (by rw [opening.property]; decide) hend (.head rfl ?_)
    rw [opening.property]
    refine .attempt (t := opening.val) rfl (KindSet.mem_braces.mpr opening.property) hend ?_
    refine .expect opening.property (.bind hlower' ?_)
    exact .demand range.property (.ending hupper' (.demand closing.property .pure))

theorem typeList_yields (d : Derivation.Definitions .kwType .equals Derivation.TypeForm)
    (hread : ∀ p ∈ (Derivation.Declaration.typeList d).parts seen, PartRead E V R p)
    (hsignless : Signless recover) (hend : nextKind after ∈ recover)
    (hstop : nextKind after ≠ .identifier) (hseen : T.Holds seen) :
    Yields E 0 T (typeList recover) (R.tokens ((Derivation.Declaration.typeList d).parts seen))
      after () (R.reports ((Derivation.Declaration.typeList d).parts seen))
      (d.all.foldl (addTypeIn V) T) := by
  obtain ⟨-, hread⟩ := List.forall_mem_cons.mp hread
  refine definitionList_yields d rfl hend hstop hseen ?_ Derivation.addTypeIn_holds
  intro x hx T seen us hseen hus
  have hsignless' : Signless (recover ∪ {.identifier} ∪ {.semicolon}) :=
    (hsignless.union (by decide)).union (by decide)
  refine definition_yields rfl hus ?_ fun us => declareType_yields hseen x
  exact fun us hus => typeExpr_yields x.meaning (meanings_read hread hx) hsignless' hus

theorem variableList_yields
    (d : Derivation.Definitions .kwVar .colon (Derivation.TokenOf .identifier))
    (hend : nextKind after ∈ recover) (hstop : nextKind after ≠ .identifier)
    (hseen : T.Holds seen) :
    Yields E 0 T (variableList recover)
      (R.tokens ((Derivation.Declaration.variableList d).parts seen)) after ()
      (R.reports ((Derivation.Declaration.variableList d).parts seen))
      (d.all.foldl addVariable T) := by
  refine definitionList_yields d rfl hend hstop hseen ?_ Derivation.addVariable_holds
  intro x _ T seen us hseen hus
  refine definition_yields rfl hus ?_ fun us => declareVariable_yields hseen x
  exact fun us hus => typeIdentifier_yields x.meaning hus

end PlZero.Grammar
