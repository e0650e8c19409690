/-
  PlZero/Proofs/Derivation/Redrawn.lean
  =====================================
  **A program with other trees for its constants.**  Which tree a constant is read as decides
  about no more than the entries in which that tree or its value is stored: the tables of the
  program match entry by entry, and its own tree is the same (`Block.leave_redrawn`,
  `Block.programIn_redrawn`).  The open scopes have to be in the table, for whether a name or a
  number is folded in another scope makes a difference.
-/
import PlZero.Proofs.Derivation.Table
import PlZero.Proofs.Scope.Matched

namespace PlZero

variable {R : Nat → PlZero.Constant → PlZero.Constant → Prop}

/-- What a name means where the trees of constants are related.  Nothing is said about their
    values. -/
inductive Meaning.Redrawn (R : Constant → Constant → Prop) : Meaning → Meaning → Prop
  | constant {c c' : Constant} (tree : R c c') (value value' : Option Int) :
      Redrawn R (.constant c value) (.constant c' value')
  | subrange {c c' d d' : Constant} (lower : R c c') (upper : R d d') :
      Redrawn R (.type (.subrange c d)) (.type (.subrange c' d'))
  | same (m : Meaning) : Redrawn R m m

/-- Entries of one name, place, scope and number, in which the trees of constants are related as
    they are in that scope. -/
structure Entry.Redrawn (R : Nat → Constant → Constant → Prop) (e e' : Entry) : Prop where
  name : e.name = e'.name
  location : e.location = e'.location
  scope : e.scope = e'.scope
  index : e.index = e'.index
  meaning : e.meaning.Redrawn (R e.scope) e'.meaning

instance : Std.Refl (Entry.Redrawn R) := ⟨fun e => ⟨rfl, rfl, rfl, rfl, .same e.meaning⟩⟩

namespace SymbolTable

variable {t t' : SymbolTable} {x : String} {l : Location} {m m' : Meaning}

theorem withLocalScope_redrawn {e e' : Entry} (n : Nat) (he : e.Redrawn R e') :
    (withLocalScope n e).Redrawn R (withLocalScope n e') := by
  obtain ⟨_, _, _, _, meaning⟩ := e
  obtain ⟨_, _, _, _, meaning'⟩ := e'
  obtain ⟨rfl, rfl, rfl, rfl, hmeaning⟩ := he
  cases hmeaning with
  | constant tree value value' => exact ⟨rfl, rfl, rfl, rfl, .constant tree value value'⟩
  | subrange lower upper => exact ⟨rfl, rfl, rfl, rfl, .subrange lower upper⟩
  | same => exact ⟨rfl, rfl, rfl, rfl, .same _⟩

section

variable (h : t.Matched (Entry.Redrawn R) t')
include h

theorem Matched.redrawn (hm : m.Redrawn (R t.current) m') :
    (t.append x l m).1.Redrawn R (t'.append x l m').1 :=
  ⟨rfl, rfl, h.current, h.size, hm⟩

open PlZero.Derivation (outcomeOf)

theorem Matched.declare_redrawn (hm : m.Redrawn (R t.current) m') :
    (outcomeOf t (t.declare x l m)).Matched (Entry.Redrawn R)
      (outcomeOf t' (t'.declare x l m')) := by
  unfold SymbolTable.declare
  rw [← h.isDeclared]
  split
  · exact h
  · exact h.add (h.redrawn hm)

theorem Matched.enter_redrawn (owner : Nat) :
    (t.enter owner).2.Matched (Entry.Redrawn R) (t'.enter owner).2 :=
  h.enter (fun n _ _ => withLocalScope_redrawn n) owner

/-- Where the scope of a procedure was closed, if there was one. -/
theorem Matched.leave_redrawn :
    (t.leave.getD t).Matched (Entry.Redrawn R) (t'.leave.getD t') := by
  have hrel := h.leave
  generalize t.leave = u at hrel
  generalize t'.leave = u' at hrel
  cases hrel with
  | none => exact h
  | some hu => exact hu

end

end SymbolTable

namespace Derivation

open SymbolTable

/-- Trees of one program that differ in those of its constants. -/
structure Trees.Redrawn (R : Nat → PlZero.Constant → PlZero.Constant → Prop) (V V' : Trees) :
    Prop where
  condition : V.condition = V'.condition
  expression : V.expression = V'.expression
  constant : ∀ scope c, R scope (V.constant scope c) (V'.constant scope c)

variable {V V' : Trees} {t t' : SymbolTable}

/-! ### Tables -/

/-- A procedure has the same name and number in tables that match. -/
theorem addProcedure_redrawn (h : t.Matched (Entry.Redrawn R) t') (name : Token) :
    (addProcedure t name).1.name = (addProcedure t' name).1.name ∧
      (addProcedure t name).1.index = (addProcedure t' name).1.index ∧
      (addProcedure t name).2.Matched (Entry.Redrawn R) (addProcedure t' name).2 := by
  have hentry := h.redrawn (x := nameOf name) (l := name.location) (.same (.procedure none))
  unfold addProcedure declareProcedure declare
  rw [← h.isDeclared]
  split
  · exact ⟨rfl, h.size, h.append hentry⟩
  · exact ⟨rfl, h.size, h.add hentry⟩

theorem addConstantIn_redrawn (hV : V.Redrawn R V') (h : t.Matched (Entry.Redrawn R) t')
    (ht : t.Opened) (d : Definition .equals Constant) :
    (addConstantIn V t d).Matched (Entry.Redrawn R) (addConstantIn V' t' d) := by
  have hcurrent : t'.current < t'.scopes.size := h.current ▸ h.scopes ▸ ht.current
  obtain ⟨value, -, heq⟩ := addConstantIn_eq V ht.current d
  obtain ⟨value', -, heq'⟩ := addConstantIn_eq V' hcurrent d
  rw [heq, heq', ← h.current]
  exact h.declare_redrawn (.constant (hV.constant _ _) value value')

theorem addTypeIn_redrawn (hV : V.Redrawn R V') (h : t.Matched (Entry.Redrawn R) t')
    (d : Definition .equals TypeForm) :
    (addTypeIn V t d).Matched (Entry.Redrawn R) (addTypeIn V' t' d) := by
  unfold addTypeIn declareType
  rw [← h.current]
  apply h.declare_redrawn
  cases d.meaning with
  | name t => exact .same _
  | subrange opening lower range upper closing =>
    exact .subrange (hV.constant _ lower) (hV.constant _ upper)

theorem addVariable_redrawn (h : t.Matched (Entry.Redrawn R) t')
    (d : Definition .colon (TokenOf .identifier)) :
    (addVariable t d).Matched (Entry.Redrawn R) (addVariable t' d) := by
  unfold addVariable declareVariable
  rw [← h.current]
  exact h.declare_redrawn (.same _)

theorem foldl_redrawn {sign : Kind} {β : Type}
    {add add' : SymbolTable → Definition sign β → SymbolTable}
    (hkept : ∀ (t : SymbolTable) d, t.Kept 0 (add t d))
    (hadd : ∀ {t t'}, t.Matched (Entry.Redrawn R) t' → t.Opened → ∀ d,
      (add t d).Matched (Entry.Redrawn R) (add' t' d))
    (h : t.Matched (Entry.Redrawn R) t') (ht : t.Opened) (ds : List (Definition sign β)) :
    (ds.foldl add t).Matched (Entry.Redrawn R) (ds.foldl add' t') := by
  induction ds generalizing t t' with
  | nil => exact h
  | cons d more ih => exact ih (hadd h ht d) ((hkept t d).opened ht)

mutual

/-- The tables of a block match. -/
theorem Block.tableIn_redrawn (hV : V.Redrawn R V') : ∀ {t t' : SymbolTable},
    t.Matched (Entry.Redrawn R) t' → t.Opened → ∀ c : Block,
      (c.tableIn V t).Matched (Entry.Redrawn R) (c.tableIn V' t')
  | _, _, h, ht, .mk declarations _ => Declaration.tableAllIn_redrawn hV h ht declarations

theorem Declaration.tableIn_redrawn (hV : V.Redrawn R V') : ∀ {t t' : SymbolTable},
    t.Matched (Entry.Redrawn R) t' → t.Opened → ∀ d : Declaration,
      (d.tableIn V t).Matched (Entry.Redrawn R) (d.tableIn V' t')
  | _, _, h, ht, .constantList d =>
    foldl_redrawn (addConstantIn_kept V) (addConstantIn_redrawn hV) h ht d.all
  | _, _, h, ht, .typeList d =>
    foldl_redrawn (fun _ _ => declare_kept) (fun h _ => addTypeIn_redrawn hV h) h ht d.all
  | _, _, h, ht, .variableList d =>
    foldl_redrawn (fun _ _ => declare_kept) (fun h _ => addVariable_redrawn h) h ht d.all
  | t, _, h, ht, .procedure _ name _ _ _ block _ => by
    obtain ⟨-, hindex, hadded⟩ := addProcedure_redrawn h name
    have hopened := ((addProcedure_kept t name).opened ht).enter (addProcedure t name).1.index
    rw [Declaration.tableIn, Declaration.tableIn, ← hindex]
    exact (block.tableIn_redrawn hV (hadded.enter_redrawn _) hopened).leave_redrawn

theorem Declaration.tableAllIn_redrawn (hV : V.Redrawn R V') : ∀ {t t' : SymbolTable},
    t.Matched (Entry.Redrawn R) t' → t.Opened → ∀ ds : List Declaration,
      (Declaration.tableAllIn V t ds).Matched (Entry.Redrawn R)
        (Declaration.tableAllIn V' t' ds)
  | _, _, h, _, [] => h
  | t, _, h, ht, d :: more =>
    Declaration.tableAllIn_redrawn hV (d.tableIn_redrawn hV h ht) ((d.tableIn_kept t).opened ht)
      more

end

/-! ### Trees -/

mutual

theorem Statement.treeIn_redrawn (hV : V.Redrawn R V') (scope : Nat) :
    ∀ (next : Location) (c : Statement), c.treeIn V scope next = c.treeIn V' scope next
  | _, .assign assignment => by
    simp only [Statement.treeIn, Assignment.treeIn, Assignment.valueTreesIn, hV.condition]
  | next, .repeated _ _ _ body => by
    rw [Statement.treeIn, Statement.treeIn, hV.condition, body.treeIn_redrawn hV scope next]
  | next, .choice _ _ _ thenBranch _ elseBranch => by
    rw [Statement.treeIn, Statement.treeIn, hV.condition, thenBranch.treeIn_redrawn hV scope,
      elseBranch.treeIn_redrawn hV scope next]
  | _, .read _ _ => rfl
  | _, .write _ _ => by rw [Statement.treeIn, Statement.treeIn, hV.expression]
  | _, .call _ _ _ _ => rfl
  | _, .compound body => body.treeIn_redrawn hV scope
  | _, .skip _ => rfl
  | _, .guarded _ first more _ => by
    rw [Statement.treeIn, Statement.treeIn, first.treeIn_redrawn hV scope,
      DoBranch.treesIn_redrawn hV scope _ more]

theorem CompoundStatement.treeIn_redrawn (hV : V.Redrawn R V') (scope : Nat) :
    ∀ c : CompoundStatement, c.treeIn V scope = c.treeIn V' scope
  | .mk _ list closing => list.treeIn_redrawn hV scope closing.val.location

theorem StatementList.treeIn_redrawn (hV : V.Redrawn R V') (scope : Nat) :
    ∀ (next : Location) (c : StatementList), c.treeIn V scope next = c.treeIn V' scope next
  | next, .mk first more => by
    rw [StatementList.treeIn, StatementList.treeIn, first.treeIn_redrawn hV scope,
      StatementList.treesIn_redrawn hV scope next more]

theorem StatementList.treesIn_redrawn (hV : V.Redrawn R V') (scope : Nat) :
    ∀ (next : Location) (more : List (TokenOf .semicolon × Statement)),
      StatementList.treesIn V scope next more = StatementList.treesIn V' scope next more
  | _, [] => rfl
  | next, (_, statement) :: more => by
    rw [StatementList.treesIn, StatementList.treesIn, statement.treeIn_redrawn hV scope,
      StatementList.treesIn_redrawn hV scope next more]

theorem DoBranch.treeIn_redrawn (hV : V.Redrawn R V') (scope : Nat) :
    ∀ (next : Location) (c : DoBranch), c.treeIn V scope next = c.treeIn V' scope next
  | next, .mk _ _ body none => by
    rw [DoBranch.treeIn, DoBranch.treeIn, hV.condition, body.treeIn_redrawn hV scope next]
  | _, .mk _ _ body (some keyword) => by
    rw [DoBranch.treeIn, DoBranch.treeIn, hV.condition,
      body.treeIn_redrawn hV scope keyword.val.location]

theorem DoBranch.treesIn_redrawn (hV : V.Redrawn R V') (scope : Nat) :
    ∀ (next : Location) (more : List (TokenOf .separator × DoBranch)),
      DoBranch.treesIn V scope next more = DoBranch.treesIn V' scope next more
  | _, [] => rfl
  | next, (_, branch) :: more => by
    rw [DoBranch.treesIn, DoBranch.treesIn, branch.treeIn_redrawn hV scope,
      DoBranch.treesIn_redrawn hV scope next more]

end

mutual

/-- The tree of a block is the same. -/
theorem Block.treeIn_redrawn (hV : V.Redrawn R V') : ∀ {t t' : SymbolTable},
    t.Matched (Entry.Redrawn R) t' → t.Opened → ∀ c : Block, c.treeIn V t = c.treeIn V' t'
  | _, _, h, ht, .mk declarations body => by
    rw [Block.treeIn, Block.treeIn, h.current, body.treeIn_redrawn hV,
      Declaration.proceduresIn_redrawn hV h ht declarations]

theorem Declaration.proceduresIn_redrawn (hV : V.Redrawn R V') : ∀ {t t' : SymbolTable},
    t.Matched (Entry.Redrawn R) t' → t.Opened → ∀ ds : List Declaration,
      Declaration.proceduresIn V t ds = Declaration.proceduresIn V' t' ds
  | _, _, _, _, [] => rfl
  | t, _, h, ht, d :: more => by
    have hopened := (d.tableIn_kept (V := V) t).opened ht
    rw [Declaration.proceduresIn, Declaration.proceduresIn, d.procedureIn?_redrawn hV h ht,
      Declaration.proceduresIn_redrawn hV (d.tableIn_redrawn hV h ht) hopened more]

theorem Declaration.procedureIn?_redrawn (hV : V.Redrawn R V') : ∀ {t t' : SymbolTable},
    t.Matched (Entry.Redrawn R) t' → t.Opened → ∀ d : Declaration,
      d.procedureIn? V t = d.procedureIn? V' t'
  | _, _, _, _, .constantList _ => rfl
  | _, _, _, _, .typeList _ => rfl
  | _, _, _, _, .variableList _ => rfl
  | t, _, h, ht, .procedure _ name _ _ _ block _ => by
    obtain ⟨hname, hindex, hadded⟩ := addProcedure_redrawn h name
    have hopened := ((addProcedure_kept t name).opened ht).enter (addProcedure t name).1.index
    have hblock := block.treeIn_redrawn hV (hadded.enter_redrawn _) hopened
    simp only [Declaration.procedureIn?, hname, ← hindex, hblock]

end

/-! ### Programs -/

theorem outermost_opened : outermost.Opened := by
  unfold Opened
  decide

theorem Block.programIn_redrawn (hV : V.Redrawn R V') (c : Block) :
    c.programIn V = c.programIn V' := by
  have hmatched : outermost.Matched (Entry.Redrawn R) outermost := .refl outermost
  rw [Block.programIn, Block.programIn, c.treeIn_redrawn hV hmatched outermost_opened]

/-- What a program leaves of its table. -/
theorem Block.leave_redrawn (hV : V.Redrawn R V') (c : Block) :
    Option.Rel (Matched (Entry.Redrawn R)) (c.tableIn V outermost).leave
      (c.tableIn V' outermost).leave :=
  (c.tableIn_redrawn hV (.refl outermost) outermost_opened).leave

end Derivation

end PlZero
