/-
  PlZero/Proofs/Derivation/Kinds.lean
  ===================================
  **The tokens that no derivation has.**  The scanner knows the logical operators and makes
  tokens of characters that mean nothing, but the grammar has no place for either, nor for
  the end of the input before the end of a program.  Expressions and definitions have no
  tokens of assignments, calls and procedures besides.
-/
import PlZero.Proofs.Derivation.Basic

namespace PlZero.Derivation

/-- The kinds that the grammar does not mention. -/
def unusedKinds : KindSet := {.illegal, .logAnd, .logOr, .logNot, .endOfFile}

/-- The kinds that no expression and no definition has. -/
def innerUnusedKinds : KindSet := unusedKinds ∪ {.assign, .kwCall, .kwProcedure}

/-- No token is of a kind in a set. -/
def Avoids (ks : KindSet) (ts : List Token) : Prop := ∀ t ∈ ts, t.kind ∉ ks

section

variable {ks : KindSet} {ts us : List Token}

theorem Avoids.nil : Avoids ks [] := by simp [Avoids]

theorem Avoids.append (h : Avoids ks ts) (h' : Avoids ks us) : Avoids ks (ts ++ us) := by
  intro t ht
  rcases List.mem_append.mp ht with ht | ht
  · exact h t ht
  · exact h' t ht

theorem Avoids.cons {t : Token} (ht : t.kind ∉ ks) (h : Avoids ks us) : Avoids ks (t :: us) := by
  intro u hu
  rcases List.mem_cons.mp hu with rfl | hu
  · exact ht
  · exact h u hu

theorem Avoids.flatMap {γ : Type} {tokens : γ → List Token} {cs : List γ}
    (h : ∀ c ∈ cs, Avoids ks (tokens c)) : Avoids ks (cs.flatMap tokens) := by
  intro t ht
  obtain ⟨c, hc, ht⟩ := List.mem_flatMap.mp ht
  exact h c hc t ht

theorem Avoids.unused (h : Avoids innerUnusedKinds ts) : Avoids unusedKinds ts :=
  fun t ht hk => h t ht (KindSet.mem_union.mpr (.inl hk))

theorem Avoids.ne_end (h : Avoids unusedKinds ts) : ∀ t ∈ ts, t.kind ≠ .endOfFile :=
  fun t ht hk => h t ht (hk ▸ by decide)

theorem TokenOf.ordinary {k : Kind} (t : TokenOf k) (hk : k ∉ ks) : t.val.kind ∉ ks := by
  rw [t.property]
  exact hk

end

/-- An operator is of no kind that is unused inside. -/
theorem operator_ordinary {k : Kind}
    (h : k ∈ multiplicativeKinds ∪ additiveKinds ∪ relationalKinds) :
    k ∉ innerUnusedKinds := by
  revert h
  cases k <;> decide

theorem multiplicative_ordinary (t : TokenIn multiplicativeKinds) :
    t.val.kind ∉ innerUnusedKinds :=
  operator_ordinary (KindSet.mem_union.mpr (.inl (KindSet.mem_union.mpr (.inl t.property))))

theorem additive_ordinary (t : TokenIn additiveKinds) : t.val.kind ∉ innerUnusedKinds :=
  operator_ordinary (KindSet.mem_union.mpr (.inl (KindSet.mem_union.mpr (.inr t.property))))

theorem relational_ordinary (t : TokenIn relationalKinds) : t.val.kind ∉ innerUnusedKinds :=
  operator_ordinary (KindSet.mem_union.mpr (.inr t.property))

/-! ### Expressions and declarations -/

mutual

theorem Factor.ordinary : ∀ c : Factor, Avoids innerUnusedKinds c.tokens
  | .name t => .cons (t.ordinary (by decide)) .nil
  | .number t => .cons (t.ordinary (by decide)) .nil
  | .parens opening inside closing => .cons (opening.ordinary (by decide))
      (inside.ordinary.append (.cons (closing.ordinary (by decide)) .nil))

theorem Factor.ordinaryMore : ∀ more : List (TokenIn multiplicativeKinds × Factor),
    Avoids innerUnusedKinds (Factor.tokensMore more)
  | [] => .nil
  | (sign, factor) :: more =>
    .cons (multiplicative_ordinary sign) (factor.ordinary.append (Factor.ordinaryMore more))

theorem Term.ordinary : ∀ c : Term, Avoids innerUnusedKinds c.tokens
  | .mk first more => first.ordinary.append (Factor.ordinaryMore more)

theorem Term.ordinaryMore : ∀ more : List (TokenIn additiveKinds × Term),
    Avoids innerUnusedKinds (Term.tokensMore more)
  | [] => .nil
  | (sign, term) :: more =>
    .cons (additive_ordinary sign) (term.ordinary.append (Term.ordinaryMore more))

theorem Expression.ordinary : ∀ c : Expression, Avoids innerUnusedKinds c.tokens
  | .mk none first more => first.ordinary.append (Term.ordinaryMore more)
  | .mk (some sign) first more =>
    .cons (additive_ordinary sign) (first.ordinary.append (Term.ordinaryMore more))

theorem Condition.ordinary : ∀ c : Condition, Avoids innerUnusedKinds c.tokens
  | .plain expression => expression.ordinary
  | .compared left sign right =>
    left.ordinary.append (.cons (relational_ordinary sign) right.ordinary)

end

theorem Constant.ordinary (c : Constant) : Avoids innerUnusedKinds c.tokens := by
  induction c with
  | number t => exact .cons (t.ordinary (by decide)) .nil
  | name t => exact .cons (t.ordinary (by decide)) .nil
  | negated sign operand ih => exact .cons (sign.ordinary (by decide)) ih

theorem TypeForm.ordinary (c : TypeForm) : Avoids innerUnusedKinds c.tokens := by
  cases c with
  | name t => exact .cons (t.ordinary (by decide)) .nil
  | subrange opening lower range upper closing =>
    exact .cons (opening.ordinary (by decide)) (lower.ordinary.append
      (.cons (range.ordinary (by decide))
        (upper.ordinary.append (.cons (closing.ordinary (by decide)) .nil))))

theorem Definitions.ordinary {keyword sign : Kind} {β : Type} {tokens : β → List Token}
    (d : Definitions keyword sign β) (hkeyword : keyword ∉ innerUnusedKinds)
    (hsign : sign ∉ innerUnusedKinds) (h : ∀ m, Avoids innerUnusedKinds (tokens m)) :
    Avoids innerUnusedKinds (d.tokens tokens) := by
  refine .cons (d.keyword.ordinary hkeyword) (.flatMap fun x _ => ?_)
  exact .cons (x.name.ordinary (by decide)) (.cons (x.sign.ordinary hsign)
    ((h x.meaning).append (.cons (x.semicolon.ordinary (by decide)) .nil)))

/-! ### Statements and blocks -/

theorem targets_ordinary (ts : List (TokenOf .comma × TokenOf .identifier)) :
    Avoids innerUnusedKinds (tokensBehind (fun t => [t.val]) ts) := by
  refine .flatMap fun p _ => ?_
  exact .cons (TokenOf.ordinary p.1 (by decide)) (.cons (TokenOf.ordinary p.2 (by decide)) .nil)

theorem values_ordinary (cs : List (TokenOf .comma × Condition)) :
    Avoids innerUnusedKinds (tokensBehind Condition.tokens cs) := by
  refine .flatMap fun p _ => ?_
  exact .cons (TokenOf.ordinary p.1 (by decide)) p.2.ordinary

theorem Assignment.ordinary (c : Assignment) : Avoids unusedKinds c.tokens :=
  .cons (c.target.ordinary (by decide)) ((targets_ordinary c.targets).unused.append
    (.cons (c.sign.ordinary (by decide))
      (c.value.ordinary.append (values_ordinary c.values)).unused))

mutual

theorem Statement.ordinary : ∀ c : Statement, Avoids unusedKinds c.tokens
  | .assign assignment => assignment.ordinary
  | .repeated keyword test sign body => .cons (keyword.ordinary (by decide))
      (test.ordinary.unused.append (.cons (sign.ordinary (by decide)) body.ordinary))
  | .choice keyword test thenSign thenBranch elseSign elseBranch =>
    .cons (keyword.ordinary (by decide)) (test.ordinary.unused.append
      (.cons (thenSign.ordinary (by decide)) (thenBranch.ordinary.append
        (.cons (elseSign.ordinary (by decide)) elseBranch.ordinary))))
  | .read keyword target => .cons (keyword.ordinary (by decide))
      (.cons (target.ordinary (by decide)) .nil)
  | .write keyword value => .cons (keyword.ordinary (by decide)) value.ordinary.unused
  | .call keyword name opening closing => .cons (keyword.ordinary (by decide))
      (.cons (name.ordinary (by decide)) (.cons (opening.ordinary (by decide))
        (.cons (closing.ordinary (by decide)) .nil)))
  | .compound body => body.ordinary
  | .skip keyword => .cons (keyword.ordinary (by decide)) .nil
  | .guarded keyword first more closing => .cons (keyword.ordinary (by decide))
      (first.ordinary.append ((DoBranch.ordinaryMore more).append
        (.cons (closing.ordinary (by decide)) .nil)))

theorem CompoundStatement.ordinary : ∀ c : CompoundStatement, Avoids unusedKinds c.tokens
  | .mk opening list closing => .cons (opening.ordinary (by decide))
      (list.ordinary.append (.cons (closing.ordinary (by decide)) .nil))

theorem StatementList.ordinary : ∀ c : StatementList, Avoids unusedKinds c.tokens
  | .mk first more => first.ordinary.append (StatementList.ordinaryMore more)

theorem StatementList.ordinaryMore : ∀ more : List (TokenOf .semicolon × Statement),
    Avoids unusedKinds (StatementList.tokensMore more)
  | [] => .nil
  | (sign, statement) :: more => .cons (sign.ordinary (by decide))
      (statement.ordinary.append (StatementList.ordinaryMore more))

theorem DoBranch.ordinary : ∀ c : DoBranch, Avoids unusedKinds c.tokens
  | .mk test sign body none =>
    test.ordinary.unused.append (.cons (sign.ordinary (by decide)) body.ordinary)
  | .mk test sign body (some keyword) =>
    test.ordinary.unused.append (.cons (sign.ordinary (by decide))
      (body.ordinary.append (.cons (keyword.ordinary (by decide)) .nil)))

theorem DoBranch.ordinaryMore : ∀ more : List (TokenOf .separator × DoBranch),
    Avoids unusedKinds (DoBranch.tokensMore more)
  | [] => .nil
  | (sign, branch) :: more => .cons (sign.ordinary (by decide))
      (branch.ordinary.append (DoBranch.ordinaryMore more))

end

mutual

/-- A program has no token of a kind that the grammar does not mention. -/
theorem Block.ordinary : ∀ c : Block, Avoids unusedKinds c.tokens
  | .mk declarations body => (Declaration.ordinaryAll declarations).append body.ordinary

theorem Declaration.ordinary : ∀ d : Declaration, Avoids unusedKinds d.tokens
  | .constantList d => (d.ordinary (by decide) (by decide) Constant.ordinary).unused
  | .typeList d => (d.ordinary (by decide) (by decide) TypeForm.ordinary).unused
  | .variableList d =>
    (d.ordinary (by decide) (by decide) fun t => .cons (t.ordinary (by decide)) .nil).unused
  | .procedure keyword name opening closing sign block semicolon =>
    .cons (keyword.ordinary (by decide)) (.cons (name.ordinary (by decide))
      (.cons (opening.ordinary (by decide)) (.cons (closing.ordinary (by decide))
        (.cons (sign.ordinary (by decide))
          (block.ordinary.append (.cons (semicolon.ordinary (by decide)) .nil))))))

theorem Declaration.ordinaryAll : ∀ ds : List Declaration,
    Avoids unusedKinds (Declaration.tokensAll ds)
  | [] => .nil
  | d :: more => d.ordinary.append (Declaration.ordinaryAll more)

end

end PlZero.Derivation
