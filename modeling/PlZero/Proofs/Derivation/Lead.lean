/-
  PlZero/Proofs/Derivation/Lead.lean
  ==================================
  **What tokens lead to.**  Behind `procedure` and `call` stands a name, behind `:=` a token that
  starts a condition, and behind the head of a procedure and its `=` a token that starts a block.
  `Lead` says how far the tokens that were read have come on the way to such a place, and
  `Lead.Follows` that tokens go on as they must.  The tokens of a program do
  (`Block.follows`).
-/
import PlZero.Proofs.Derivation.First
import PlZero.Proofs.Derivation.Kinds

namespace PlZero

/-- What has just been read: `procedure` or `call`, or some of the head of a procedure, or
    nothing of this kind. -/
inductive Lead
  | nothing
  | call
  | procedure
  | named
  | opened
  | head
  deriving DecidableEq, Repr

namespace Lead

/-- What has been read behind a token of a kind. -/
def after : Lead → Kind → Lead
  | _, .kwProcedure => .procedure
  | _, .kwCall => .call
  | .procedure, .identifier => .named
  | .named, .leftParen => .opened
  | .opened, .rightParen => .head
  | _, _ => .nothing

/-- Behind `procedure` and `call` a name is read. -/
def Names (lead : Lead) : Prop := lead = .procedure ∨ lead = .call

theorem not_names : ¬ nothing.Names := by
  rintro (hnames | hnames) <;> cases hnames

theorem names_after {lead : Lead} {k : Kind} (h : (lead.after k).Names) :
    k = .kwProcedure ∨ k = .kwCall := by
  revert h
  unfold after
  split
  · exact fun _ => .inl rfl
  · exact fun _ => .inr rfl
  all_goals rintro (hnames | hnames) <;> cases hnames

/-- The kinds of the head of a procedure. -/
def headKinds : List Kind := [.kwProcedure, .identifier, .leftParen, .rightParen]

theorem after_head {kinds : List Kind} (lead : Lead) (h : headKinds <:+ kinds) :
    kinds.foldl after lead = .head := by
  obtain ⟨before, rfl⟩ := h
  rw [List.foldl_append]
  rfl

/-- Tokens go on as they must behind what has been read, up to the end of the input. -/
def Follows : Lead → List Token → Prop
  | _, [] => False
  | lead, t :: ts =>
    (lead.Names → t.kind = .identifier) ∧
      (t.kind = .assign → ∀ u ∈ ts.head?, u.kind ∈ Starts.condition) ∧
      (lead = .head → t.kind = .equals → ∀ u ∈ ts.head?, u.kind ∈ Starts.block) ∧
      if t.kind = .endOfFile then ts = [] else (lead.after t.kind).Follows ts

/-- The kinds behind which something else must stand than behind others. -/
def decisive : KindSet := {.assign, .kwCall, .kwProcedure, .endOfFile}

theorem after_nothing {k : Kind} (h : k ∉ decisive) : nothing.after k = .nothing := by
  revert h
  cases k <;> decide

variable {t : Token} {ts rest : List Token}

theorem Follows.cons (ht : t.kind ∉ decisive) (h : nothing.Follows rest) :
    nothing.Follows (t :: rest) := by
  have hassign : t.kind ≠ .assign := fun hk => ht (hk ▸ by decide)
  have hend : t.kind ≠ .endOfFile := fun hk => ht (hk ▸ by decide)
  refine ⟨fun hnames => absurd hnames not_names, fun hk => absurd hk hassign, nofun, ?_⟩
  rw [if_neg hend, after_nothing ht]
  exact h

theorem Follows.append (hts : Derivation.Avoids decisive ts) (h : nothing.Follows rest) :
    nothing.Follows (ts ++ rest) := by
  induction ts with
  | nil => exact h
  | cons t ts ih =>
    have hmore := ih fun u hu => hts u (List.mem_cons_of_mem _ hu)
    exact hmore.cons (hts t List.mem_cons_self)

theorem Follows.assign (ht : t.kind = .assign)
    (hstart : ∀ u ∈ rest.head?, u.kind ∈ Starts.condition) (h : nothing.Follows rest) :
    nothing.Follows (t :: rest) := by
  refine ⟨fun hnames => absurd hnames not_names, fun _ => hstart, nofun, ?_⟩
  rw [ht]
  exact h

end Lead

namespace Derivation

open Lead

variable {rest : List Token}

theorem TokenOf.follows {k : Kind} (t : TokenOf k) (hk : k ∉ decisive)
    (h : nothing.Follows rest) : nothing.Follows (t.val :: rest) :=
  h.cons (t.ordinary hk)

/-- Expressions and definitions have nothing in them behind which something special must
    stand. -/
theorem Avoids.follows {ts : List Token} (hts : Avoids innerUnusedKinds ts)
    (h : nothing.Follows rest) : nothing.Follows (ts ++ rest) := by
  apply h.append
  intro t ht hk
  apply hts t ht
  revert hk
  cases t.kind <;> decide

/-- What begins with a token of a kind in a set does so whatever stands behind. -/
theorem starts_append {ts : List Token} {t : Token} {starts : KindSet}
    (h : ts.head? = some t ∧ t.kind ∈ starts) : ∀ u ∈ (ts ++ rest).head?, u.kind ∈ starts := by
  intro u hu
  rw [List.head?_append, h.1] at hu
  cases hu
  exact h.2

/-! ### Statements -/

theorem Assignment.follows (c : Assignment) (h : nothing.Follows rest) :
    nothing.Follows (c.tokens ++ rest) := by
  have hvalues : nothing.Follows
      (c.value.tokens ++ (tokensBehind Condition.tokens c.values ++ rest)) :=
    c.value.ordinary.follows ((values_ordinary c.values).follows h)
  rw [Assignment.tokens, List.cons_append, List.append_assoc, List.cons_append, List.append_assoc]
  exact c.target.follows (by decide) ((targets_ordinary c.targets).follows
    (hvalues.assign c.sign.property (starts_append c.value.begins)))

/-- The name of the procedure to call is read behind `call`. -/
theorem call_follows (keyword : TokenOf .kwCall) (name : TokenOf .identifier)
    (opening : TokenOf .leftParen) (closing : TokenOf .rightParen) (h : nothing.Follows rest) :
    nothing.Follows (keyword.val :: name.val :: opening.val :: closing.val :: rest) := by
  obtain ⟨_, hkeyword⟩ := keyword
  obtain ⟨_, hname⟩ := name
  obtain ⟨_, hopening⟩ := opening
  obtain ⟨_, hclosing⟩ := closing
  simp [Follows, Names, hkeyword, hname, hopening, hclosing, after, h]

mutual

theorem Statement.follows : ∀ (c : Statement) {rest : List Token}, nothing.Follows rest →
    nothing.Follows (c.tokens ++ rest)
  | .assign assignment, _, h => assignment.follows h
  | .repeated keyword test sign body, _, h => by
    rw [Statement.tokens, List.cons_append, List.append_assoc]
    exact keyword.follows (by decide)
      (test.ordinary.follows (sign.follows (by decide) (Statement.follows body h)))
  | .choice keyword test thenSign thenBranch elseSign elseBranch, _, h => by
    rw [Statement.tokens, List.cons_append, List.append_assoc, List.cons_append,
      List.append_assoc]
    exact keyword.follows (by decide) (test.ordinary.follows (thenSign.follows (by decide)
      (Statement.follows thenBranch
        (elseSign.follows (by decide) (Statement.follows elseBranch h)))))
  | .read keyword target, _, h => keyword.follows (by decide) (target.follows (by decide) h)
  | .write keyword value, _, h => keyword.follows (by decide) (value.ordinary.follows h)
  | .call keyword name opening closing, _, h => call_follows keyword name opening closing h
  | .compound body, _, h => CompoundStatement.follows body h
  | .skip keyword, _, h => keyword.follows (by decide) h
  | .guarded keyword first more closing, _, h => by
    rw [Statement.tokens, List.cons_append, List.append_assoc, List.append_assoc]
    exact keyword.follows (by decide)
      (DoBranch.follows first (DoBranch.followsMore more (closing.follows (by decide) h)))

theorem CompoundStatement.follows : ∀ (c : CompoundStatement) {rest : List Token},
    nothing.Follows rest → nothing.Follows (c.tokens ++ rest)
  | .mk opening list closing, _, h => by
    rw [CompoundStatement.tokens, List.cons_append, List.append_assoc]
    exact opening.follows (by decide)
      (StatementList.follows list (closing.follows (by decide) h))

theorem StatementList.follows : ∀ (c : StatementList) {rest : List Token},
    nothing.Follows rest → nothing.Follows (c.tokens ++ rest)
  | .mk first more, _, h => by
    rw [StatementList.tokens, List.append_assoc]
    exact Statement.follows first (StatementList.followsMore more h)

theorem StatementList.followsMore : ∀ (more : List (TokenOf .semicolon × Statement))
    {rest : List Token}, nothing.Follows rest →
      nothing.Follows (StatementList.tokensMore more ++ rest)
  | [], _, h => h
  | (sign, statement) :: more, _, h => by
    rw [StatementList.tokensMore, List.cons_append, List.append_assoc]
    exact sign.follows (by decide)
      (Statement.follows statement (StatementList.followsMore more h))

theorem DoBranch.follows : ∀ (c : DoBranch) {rest : List Token}, nothing.Follows rest →
    nothing.Follows (c.tokens ++ rest)
  | .mk test sign body none, _, h => by
    rw [DoBranch.tokens, List.append_assoc]
    exact test.ordinary.follows (sign.follows (by decide) (StatementList.follows body h))
  | .mk test sign body (some keyword), _, h => by
    rw [DoBranch.tokens, List.append_assoc, List.cons_append, List.append_assoc]
    exact test.ordinary.follows (sign.follows (by decide)
      (StatementList.follows body (keyword.follows (by decide) h)))

theorem DoBranch.followsMore : ∀ (more : List (TokenOf .separator × DoBranch))
    {rest : List Token}, nothing.Follows rest → nothing.Follows (DoBranch.tokensMore more ++ rest)
  | [], _, h => h
  | (sign, branch) :: more, _, h => by
    rw [DoBranch.tokensMore, List.cons_append, List.append_assoc]
    exact sign.follows (by decide) (DoBranch.follows branch (DoBranch.followsMore more h))

end

/-! ### Blocks -/

/-- The head of a procedure with its `=`, before a block. -/
theorem head_follows (keyword : TokenOf .kwProcedure) (name : TokenOf .identifier)
    (opening : TokenOf .leftParen) (closing : TokenOf .rightParen) (sign : TokenOf .equals)
    (hstart : ∀ u ∈ rest.head?, u.kind ∈ Starts.block) (h : nothing.Follows rest) :
    nothing.Follows
      (keyword.val :: name.val :: opening.val :: closing.val :: sign.val :: rest) := by
  obtain ⟨_, hkeyword⟩ := keyword
  obtain ⟨_, hname⟩ := name
  obtain ⟨_, hopening⟩ := opening
  obtain ⟨_, hclosing⟩ := closing
  obtain ⟨_, hsign⟩ := sign
  simpa [Follows, Names, hkeyword, hname, hopening, hclosing, hsign, after, h] using hstart

mutual

/-- The tokens of a program go on as they must. -/
theorem Block.follows : ∀ (c : Block) {rest : List Token}, nothing.Follows rest →
    nothing.Follows (c.tokens ++ rest)
  | .mk declarations body, _, h => by
    rw [Block.tokens, List.append_assoc]
    exact Declaration.followsAll declarations (body.follows h)

theorem Declaration.follows : ∀ (d : Declaration) {rest : List Token}, nothing.Follows rest →
    nothing.Follows (d.tokens ++ rest)
  | .constantList d, _, h =>
    (d.ordinary (by decide) (by decide) Constant.ordinary).follows h
  | .typeList d, _, h =>
    (d.ordinary (by decide) (by decide) TypeForm.ordinary).follows h
  | .variableList d, _, h =>
    (d.ordinary (by decide) (by decide) fun t => .cons (t.ordinary (by decide)) .nil).follows h
  | .procedure keyword name opening closing sign block semicolon, _, h => by
    have hblock := Block.follows block (semicolon.follows (by decide) h)
    have hhead := head_follows keyword name opening closing sign (starts_append block.begins) hblock
    simpa [Declaration.tokens] using hhead

theorem Declaration.followsAll : ∀ (ds : List Declaration) {rest : List Token},
    nothing.Follows rest → nothing.Follows (Declaration.tokensAll ds ++ rest)
  | [], _, h => h
  | d :: more, _, h => by
    rw [Declaration.tokensAll, List.append_assoc]
    exact Declaration.follows d (Declaration.followsAll more h)

end

end Derivation

end PlZero
