/-
  PlZero/Proofs/Derivation/Overdeep.lean
  ======================================
  **Parentheses and signs that nest too deeply.**  A derivation may nest them without end, but
  only `maxNesting` of them may be open at a time.  A parenthesis that is opened while as many
  are open is one placeholder with all that stands up to its partner (a `group`), and so is
  the sign of a constant behind as many signs, with the operand behind it.  `treeAt` is the
  tree with these placeholders and `overdeep` are the tokens at which the limit is passed.

  What stands between the parentheses of a group does not matter, as long as its parentheses
  are balanced: a `Filling` puts other tokens there.
-/
import PlZero.Grammar.Reading
import PlZero.Proofs.Derivation.Parts
import PlZero.Proofs.Derivation.Trees
import PlZero.Proofs.Stream.Paired

namespace PlZero.Derivation

open PlZero.Grammar (maxNesting)

/-! ### Groups -/

/-- A stretch of an expression: one of its tokens, or a group, with what is derived between
    its parentheses. -/
inductive Segment
  | token (token : Token)
  | group (opening : TokenOf .leftParen) (inside : Condition) (closing : TokenOf .rightParen)

mutual

/-- The segments of a factor that stands inside `n` pairs of parentheses. -/
def Factor.segments (n : Nat) : Factor → List Segment
  | .name t => [.token t.val]
  | .number t => [.token t.val]
  | .parens opening inside closing =>
    if n < maxNesting then
      .token opening.val :: (inside.segments (n + 1) ++ [.token closing.val])
    else [.group opening inside closing]

def Factor.segmentsMore (n : Nat) : List (TokenIn multiplicativeKinds × Factor) → List Segment
  | [] => []
  | (sign, factor) :: more =>
    .token sign.val :: (factor.segments n ++ Factor.segmentsMore n more)

def Term.segments (n : Nat) : Term → List Segment
  | .mk first more => first.segments n ++ Factor.segmentsMore n more

def Term.segmentsMore (n : Nat) : List (TokenIn additiveKinds × Term) → List Segment
  | [] => []
  | (sign, term) :: more => .token sign.val :: (term.segments n ++ Term.segmentsMore n more)

def Expression.segments (n : Nat) : Expression → List Segment
  | .mk none first more => first.segments n ++ Term.segmentsMore n more
  | .mk (some sign) first more =>
    .token sign.val :: (first.segments n ++ Term.segmentsMore n more)

def Condition.segments (n : Nat) : Condition → List Segment
  | .plain expression => expression.segments n
  | .compared left sign right =>
    left.segments n ++ .token sign.val :: right.segments n

end

mutual

/-- The tree of a factor that stands inside `n` pairs of parentheses. -/
def Factor.treeAt (n scope : Nat) : Factor → PlZero.Expression
  | .name t => .identifier t.val.location t.val.payload.name scope
  | .number t => .number t.val.location t.val.payload.value
  | .parens opening inside _ =>
    if n < maxNesting then inside.treeAt (n + 1) scope else .error opening.val.location

def Factor.chainAt (n scope : Nat) (left : PlZero.Expression) :
    List (TokenIn multiplicativeKinds × Factor) → PlZero.Expression
  | [] => left
  | (sign, factor) :: more => Factor.chainAt n scope
    (.binary sign.val.location (operatorOf sign.val.kind) left (factor.treeAt n scope)) more

def Term.treeAt (n scope : Nat) : Term → PlZero.Expression
  | .mk first more => Factor.chainAt n scope (first.treeAt n scope) more

def Term.chainAt (n scope : Nat) (left : PlZero.Expression) :
    List (TokenIn additiveKinds × Term) → PlZero.Expression
  | [] => left
  | (sign, term) :: more => Term.chainAt n scope
    (.binary sign.val.location (operatorOf sign.val.kind) left (term.treeAt n scope)) more

def Expression.treeAt (n scope : Nat) : Expression → PlZero.Expression
  | .mk none first more => Term.chainAt n scope (first.treeAt n scope) more
  | .mk (some sign) first more =>
    if sign.val.kind = .minus then
      Term.chainAt n scope (.unary sign.val.location .neg (first.treeAt n scope)) more
    else Term.chainAt n scope (first.treeAt n scope) more

def Condition.treeAt (n scope : Nat) : Condition → PlZero.Expression
  | .plain expression => expression.treeAt n scope
  | .compared left sign right => .binary sign.val.location (operatorOf sign.val.kind)
    (left.treeAt n scope) (right.treeAt n scope)

end

theorem Factor.segmentsMore_eq (n : Nat) (more : List (TokenIn multiplicativeKinds × Factor)) :
    Factor.segmentsMore n more =
      more.flatMap fun p => .token p.1.val :: p.2.segments n := by
  induction more with
  | nil => rfl
  | cons p more ih =>
    obtain ⟨sign, factor⟩ := p
    simp only [Factor.segmentsMore, ih, List.flatMap_cons, List.cons_append]

theorem Term.segmentsMore_eq (n : Nat) (more : List (TokenIn additiveKinds × Term)) :
    Term.segmentsMore n more = more.flatMap fun p => .token p.1.val :: p.2.segments n := by
  induction more with
  | nil => rfl
  | cons p more ih =>
    obtain ⟨sign, term⟩ := p
    simp only [Term.segmentsMore, ih, List.flatMap_cons, List.cons_append]

theorem Factor.chainAt_eq (n scope : Nat) (left : PlZero.Expression)
    (more : List (TokenIn multiplicativeKinds × Factor)) :
    Factor.chainAt n scope left more = chainOf (Factor.treeAt n scope) left more := by
  induction more generalizing left with
  | nil => rfl
  | cons p more ih =>
    obtain ⟨sign, factor⟩ := p
    rw [Factor.chainAt, ih]
    rfl

theorem Term.chainAt_eq (n scope : Nat) (left : PlZero.Expression)
    (more : List (TokenIn additiveKinds × Term)) :
    Term.chainAt n scope left more = chainOf (Term.treeAt n scope) left more := by
  induction more generalizing left with
  | nil => rfl
  | cons p more ih =>
    obtain ⟨sign, term⟩ := p
    rw [Term.chainAt, ih]
    rfl

/-! ### Fillings -/

/-- An operator is neither a parenthesis nor the end of the input. -/
theorem operator_plain {k : Kind}
    (h : k ∈ multiplicativeKinds ∪ additiveKinds ∪ relationalKinds) :
    k ∉ ({.leftParen, .rightParen, .endOfFile} : KindSet) := by
  revert h
  cases k <;> decide

theorem TokenOf.plain {k : Kind} (t : TokenOf k)
    (hk : k ∉ ({.leftParen, .rightParen, .endOfFile} : KindSet)) :
    t.val.kind ∉ ({.leftParen, .rightParen, .endOfFile} : KindSet) := by
  rw [t.property]
  exact hk

mutual

theorem Factor.paired : ∀ c : Factor, Paired c.tokens
  | .name t => .single (t.plain (by decide))
  | .number t => .single (t.plain (by decide))
  | .parens opening inside closing => .parens opening.property inside.paired closing.property

theorem Factor.pairedMore : ∀ more : List (TokenIn multiplicativeKinds × Factor),
    Paired (Factor.tokensMore more)
  | [] => .nil
  | (sign, factor) :: more => .cons (operator_plain (by simp [sign.property]))
      (factor.paired.append (Factor.pairedMore more))

theorem Term.paired : ∀ c : Term, Paired c.tokens
  | .mk first more => first.paired.append (Factor.pairedMore more)

theorem Term.pairedMore : ∀ more : List (TokenIn additiveKinds × Term),
    Paired (Term.tokensMore more)
  | [] => .nil
  | (sign, term) :: more => .cons (operator_plain (by simp [sign.property]))
      (term.paired.append (Term.pairedMore more))

theorem Expression.paired : ∀ c : Expression, Paired c.tokens
  | .mk none first more => first.paired.append (Term.pairedMore more)
  | .mk (some sign) first more => .cons (operator_plain (by simp [sign.property]))
      (first.paired.append (Term.pairedMore more))

/-- The parentheses of a condition are balanced. -/
theorem Condition.paired : ∀ c : Condition, Paired c.tokens
  | .plain expression => expression.paired
  | .compared left sign right =>
    left.paired.append (.cons (operator_plain (by simp [sign.property])) right.paired)

end

/-- What stands in the groups of a program, for each condition that is derived there. -/
structure Filling where
  inside : Condition → List Token
  paired : ∀ c, Paired (inside c)

/-- Groups hold what is derived there. -/
def Filling.same : Filling := ⟨Condition.tokens, Condition.paired⟩

/-- The tokens of a segment. -/
def Segment.typed (fill : Filling) : Segment → List Token
  | .token t => [t]
  | .group opening inside closing => opening.val :: (fill.inside inside ++ [closing.val])

/-- The parenthesis at which a segment nests too deeply. -/
def Segment.overdeep : Segment → List Token
  | .token _ => []
  | .group opening _ _ => [opening.val]

/-- What is reported where a parenthesis or a sign nests too deeply. -/
def tooDeepAt (t : Token) : Diagnostic := ⟨.error, .expressionTooDeep, t.location⟩

/-- The tokens of some segments. -/
def typed (fill : Filling) (xs : List Segment) : List Token := xs.flatMap (Segment.typed fill)

/-- The parentheses at which some segments nest too deeply. -/
def overdeep (xs : List Segment) : List Token := xs.flatMap Segment.overdeep

section

variable (fill : Filling) (x : Segment) (xs ys : List Segment)

@[simp] theorem typed_nil : typed fill [] = [] := rfl

@[simp] theorem typed_cons : typed fill (x :: xs) = x.typed fill ++ typed fill xs := rfl

@[simp] theorem typed_append : typed fill (xs ++ ys) = typed fill xs ++ typed fill ys :=
  List.flatMap_append

@[simp] theorem overdeep_nil : overdeep [] = [] := rfl

@[simp] theorem overdeep_cons : overdeep (x :: xs) = x.overdeep ++ overdeep xs := rfl

@[simp] theorem overdeep_append : overdeep (xs ++ ys) = overdeep xs ++ overdeep ys :=
  List.flatMap_append

theorem typed_behind {P : Token → Prop} {γ : Type} (segments : γ → List Segment)
    (more : List ({ t // P t } × γ)) :
    typed fill (more.flatMap fun p => .token p.1.val :: segments p.2) =
      tokensBehind (fun c => typed fill (segments c)) more := by
  induction more with
  | nil => rfl
  | cons p more ih =>
    simp only [tokensBehind, List.flatMap_cons, typed_append] at ih ⊢
    rw [ih, typed_cons]
    rfl

theorem overdeep_behind {P : Token → Prop} {γ : Type} (segments : γ → List Segment)
    (more : List ({ t // P t } × γ)) :
    overdeep (more.flatMap fun p => .token p.1.val :: segments p.2) =
      more.flatMap fun p => overdeep (segments p.2) := by
  induction more with
  | nil => rfl
  | cons p more ih =>
    simp only [List.flatMap_cons, overdeep_append] at ih ⊢
    rw [ih, overdeep_cons]
    rfl

end

/-! ### First tokens -/

section

variable (fill : Filling) (n : Nat)

theorem Factor.typed_begins (c : Factor) :
    (typed fill (c.segments n)).head? = some c.first ∧ c.first.kind ∈ Starts.factor := by
  refine ⟨?_, c.begins.2⟩
  cases c with
  | name t => rfl
  | number t => rfl
  | parens opening inside closing =>
    rw [Factor.segments]
    split <;> rfl

theorem Term.typed_begins (c : Term) :
    (typed fill (c.segments n)).head? = some c.first ∧ c.first.kind ∈ Starts.term := by
  refine ⟨?_, c.begins.2⟩
  obtain ⟨first, more⟩ := c
  rw [Term.segments, typed_append, List.head?_append, (first.typed_begins fill n).1]
  rfl

theorem Expression.typed_begins (c : Expression) :
    (typed fill (c.segments n)).head? = some c.first ∧ c.first.kind ∈ Starts.expression := by
  refine ⟨?_, c.begins.2⟩
  obtain ⟨_ | sign, first, more⟩ := c
  · rw [Expression.segments, typed_append, List.head?_append, (first.typed_begins fill n).1]
    rfl
  · rfl

theorem Condition.typed_begins (c : Condition) :
    (typed fill (c.segments n)).head? = some c.first ∧ c.first.kind ∈ Starts.condition := by
  refine ⟨?_, c.begins.2⟩
  cases c with
  | plain expression => exact (expression.typed_begins fill n).1
  | compared left sign right =>
    rw [Condition.segments, typed_append, List.head?_append, (left.typed_begins fill n).1]
    rfl

end

mutual

theorem Factor.typed_same (n : Nat) : ∀ c : Factor, typed .same (c.segments n) = c.tokens
  | .name _ => rfl
  | .number _ => rfl
  | .parens _ inside _ => by
    rw [Factor.segments]
    split
    · simp [Segment.typed, Factor.tokens, inside.typed_same (n + 1)]
    · simp [Segment.typed, Factor.tokens, Filling.same]

theorem Factor.typed_sameMore (n : Nat) : ∀ more : List (TokenIn multiplicativeKinds × Factor),
    typed .same (Factor.segmentsMore n more) = Factor.tokensMore more
  | [] => rfl
  | (_, factor) :: more => by
    simp [Factor.segmentsMore, Factor.tokensMore, Segment.typed, factor.typed_same n,
      Factor.typed_sameMore n more]

theorem Term.typed_same (n : Nat) : ∀ c : Term, typed .same (c.segments n) = c.tokens
  | .mk first more => by
    simp [Term.segments, Term.tokens, first.typed_same n, Factor.typed_sameMore n more]

theorem Term.typed_sameMore (n : Nat) : ∀ more : List (TokenIn additiveKinds × Term),
    typed .same (Term.segmentsMore n more) = Term.tokensMore more
  | [] => rfl
  | (_, term) :: more => by
    simp [Term.segmentsMore, Term.tokensMore, Segment.typed, term.typed_same n,
      Term.typed_sameMore n more]

theorem Expression.typed_same (n : Nat) : ∀ c : Expression,
    typed .same (c.segments n) = c.tokens
  | .mk none first more => by
    simp [Expression.segments, Expression.tokens, first.typed_same n, Term.typed_sameMore n more]
  | .mk (some _) first more => by
    simp [Expression.segments, Expression.tokens, Segment.typed, first.typed_same n,
      Term.typed_sameMore n more]

/-- With what is derived there, the segments of a condition are its tokens. -/
theorem Condition.typed_same (n : Nat) : ∀ c : Condition,
    typed .same (c.segments n) = c.tokens
  | .plain expression => expression.typed_same n
  | .compared left _ right => by
    simp [Condition.segments, Condition.tokens, Segment.typed, left.typed_same n,
      right.typed_same n]

end

/-! ### Expressions within the limit -/

mutual

theorem Factor.within {n : Nat} (scope : Nat) : ∀ {c : Factor}, n + c.nesting ≤ maxNesting →
    overdeep (c.segments n) = [] ∧ c.treeAt n scope = c.tree scope
  | .name _, _ => ⟨rfl, rfl⟩
  | .number _, _ => ⟨rfl, rfl⟩
  | .parens _ inside _, h => by
    rw [Factor.nesting] at h
    obtain ⟨hdeep, htree⟩ := inside.within (n := n + 1) scope (by omega)
    have hn : n < maxNesting := by omega
    rw [Factor.segments, Factor.treeAt, if_pos hn, if_pos hn]
    exact ⟨by simp [Segment.overdeep, hdeep], htree⟩

theorem Factor.withinMore {n : Nat} (scope : Nat) (left : PlZero.Expression) :
    ∀ more : List (TokenIn multiplicativeKinds × Factor),
      n + Factor.nestingMore more ≤ maxNesting → overdeep (Factor.segmentsMore n more) = [] ∧
        Factor.chainAt n scope left more = Factor.chain scope left more
  | [], _ => ⟨rfl, rfl⟩
  | (sign, factor) :: more, h => by
    rw [Factor.nestingMore] at h
    obtain ⟨hdeep, htree⟩ := factor.within (n := n) scope (by omega)
    obtain ⟨hdeeps, htrees⟩ := Factor.withinMore (n := n) scope
      (.binary sign.val.location (operatorOf sign.val.kind) left (factor.tree scope)) more
      (by omega)
    rw [Factor.chainAt, Factor.chain, htree]
    exact ⟨by simp [Factor.segmentsMore, Segment.overdeep, hdeep, hdeeps], htrees⟩

theorem Term.within {n : Nat} (scope : Nat) : ∀ {c : Term}, n + c.nesting ≤ maxNesting →
    overdeep (c.segments n) = [] ∧ c.treeAt n scope = c.tree scope
  | .mk first more, h => by
    rw [Term.nesting] at h
    obtain ⟨hdeep, htree⟩ := first.within (n := n) scope (by omega)
    obtain ⟨hdeeps, htrees⟩ := Factor.withinMore (n := n) scope (first.tree scope) more
      (by omega)
    rw [Term.treeAt, Term.tree, htree]
    exact ⟨by simp [Term.segments, hdeep, hdeeps], htrees⟩

theorem Term.withinMore {n : Nat} (scope : Nat) (left : PlZero.Expression) :
    ∀ more : List (TokenIn additiveKinds × Term), n + Term.nestingMore more ≤ maxNesting →
      overdeep (Term.segmentsMore n more) = [] ∧
        Term.chainAt n scope left more = Term.chain scope left more
  | [], _ => ⟨rfl, rfl⟩
  | (sign, term) :: more, h => by
    rw [Term.nestingMore] at h
    obtain ⟨hdeep, htree⟩ := term.within (n := n) scope (by omega)
    obtain ⟨hdeeps, htrees⟩ := Term.withinMore (n := n) scope
      (.binary sign.val.location (operatorOf sign.val.kind) left (term.tree scope)) more
      (by omega)
    rw [Term.chainAt, Term.chain, htree]
    exact ⟨by simp [Term.segmentsMore, Segment.overdeep, hdeep, hdeeps], htrees⟩

theorem Expression.within {n : Nat} (scope : Nat) : ∀ {c : Expression},
    n + c.nesting ≤ maxNesting →
      overdeep (c.segments n) = [] ∧ c.treeAt n scope = c.tree scope
  | .mk sign first more, h => by
    rw [Expression.nesting] at h
    obtain ⟨hdeep, htree⟩ := first.within (n := n) scope (by omega)
    have hrest := fun left => Term.withinMore (n := n) scope left more (by omega)
    cases sign with
    | none =>
      rw [Expression.treeAt, Expression.tree, htree]
      exact ⟨by simp [Expression.segments, hdeep, (hrest (first.tree scope)).1], (hrest _).2⟩
    | some sign =>
      rw [Expression.treeAt, Expression.tree, htree, (hrest _).2, (hrest _).2]
      exact ⟨by simp [Expression.segments, Segment.overdeep, hdeep, (hrest (first.tree scope)).1],
        rfl⟩

/-- A condition within the limit has no groups, and its tree is the one that is derived. -/
theorem Condition.within {n : Nat} (scope : Nat) : ∀ {c : Condition},
    n + c.nesting ≤ maxNesting →
      overdeep (c.segments n) = [] ∧ c.treeAt n scope = c.tree scope
  | .plain _, h => Expression.within scope h
  | .compared left _ right, h => by
    rw [Condition.nesting] at h
    obtain ⟨hleft, hleft'⟩ := left.within (n := n) scope (by omega)
    obtain ⟨hright, hright'⟩ := right.within (n := n) scope (by omega)
    rw [Condition.treeAt, Condition.tree, hleft', hright']
    exact ⟨by simp [Condition.segments, Segment.overdeep, hleft, hright], rfl⟩

end

/-! ### Constants -/

/-- The tree of a constant behind `n` signs. -/
def Constant.treeAt (n scope : Nat) : Constant → PlZero.Constant
  | .number t => .number t.val.location scope t.val.payload.value
  | .name t => .named t.val.location scope t.val.payload.name
  | .negated sign operand =>
    if n < maxNesting then .negated sign.val.location scope (operand.treeAt (n + 1) scope)
    else .error sign.val.location scope

/-- The sign at which a constant behind `n` signs nests too deeply. -/
def Constant.overdeep (n : Nat) : Constant → List Token
  | .number _ => []
  | .name _ => []
  | .negated sign operand =>
    if n < maxNesting then operand.overdeep (n + 1) else [sign.val]

/-- The token of a constant behind its signs. -/
def Constant.base : Constant → Token
  | .number t => t
  | .name t => t
  | .negated _ operand => operand.base

/-- The signs of a constant. -/
def Constant.signs : Constant → List Token
  | .number _ => []
  | .name _ => []
  | .negated sign operand => sign.val :: operand.signs

theorem Constant.tokens_eq (c : Constant) : c.tokens = c.signs ++ [c.base] := by
  induction c with
  | number t => rfl
  | name t => rfl
  | negated sign operand ih => exact congrArg (sign.val :: ·) ih

theorem Constant.signs_kind (c : Constant) : ∀ t ∈ c.signs, t.kind = .minus := by
  induction c with
  | number t => simp [Constant.signs]
  | name t => simp [Constant.signs]
  | negated sign operand ih => exact List.forall_mem_cons.mpr ⟨sign.property, ih⟩

/-- The limit is passed at the sign behind the first `maxNesting`, if there is one. -/
theorem Constant.overdeep_eq (c : Constant) : ∀ {n : Nat}, n ≤ maxNesting →
    c.overdeep n = c.signs[maxNesting - n]?.toList := by
  induction c with
  | number t => simp [Constant.overdeep, Constant.signs]
  | name t => simp [Constant.overdeep, Constant.signs]
  | negated sign operand ih =>
    intro n hn
    rw [Constant.overdeep, Constant.signs]
    split
    · rename_i hlt
      have hindex : maxNesting - n = (maxNesting - (n + 1)) + 1 := by omega
      rw [ih hlt, hindex, List.getElem?_cons_succ]
    · have hzero : maxNesting - n = 0 := by omega
      rw [hzero]
      rfl

/-- A constant within the limit has the tree that is derived. -/
theorem Constant.within {n : Nat} (scope : Nat) {c : Constant} (h : n + c.nesting ≤ maxNesting) :
    c.overdeep n = [] ∧ c.treeAt n scope = c.tree scope := by
  induction c generalizing n with
  | number t => exact ⟨rfl, rfl⟩
  | name t => exact ⟨rfl, rfl⟩
  | negated sign operand ih =>
    rw [Constant.nesting] at h
    obtain ⟨hdeep, htree⟩ := ih (n := n + 1) (by omega)
    have hn : n < maxNesting := by omega
    rw [Constant.overdeep, Constant.treeAt, if_pos hn, if_pos hn, hdeep, htree]
    exact ⟨rfl, rfl⟩

theorem Constant.treeAt_inScope (n scope : Nat) (c : Constant) :
    (c.treeAt n scope).InScope scope := by
  induction c generalizing n with
  | number t => rfl
  | name t => rfl
  | negated sign operand ih =>
    rw [Constant.treeAt]
    split
    · exact ⟨rfl, ih (n + 1)⟩
    · rfl

/-! ### Programs -/

/-- The trees of operands, with a placeholder wherever the limit is passed. -/
def Trees.limited : Trees :=
  ⟨Condition.treeAt 0, Expression.treeAt 0, Constant.treeAt 0, Constant.treeAt_inScope 0⟩

/-- Operands with other tokens in their groups, each group and each sign that nests too deeply
    being reported. -/
def Rendering.limited (fill : Filling) : Rendering where
  condition := ⟨fun c => typed fill (c.segments 0),
    fun c => (Derivation.overdeep (c.segments 0)).map tooDeepAt⟩
  expression := ⟨fun c => typed fill (c.segments 0),
    fun c => (Derivation.overdeep (c.segments 0)).map tooDeepAt⟩
  constant := ⟨Constant.tokens, fun c => (c.overdeep 0).map tooDeepAt⟩

/-- The tokens at which a part nests too deeply. -/
def Part.overdeep : Part → List Token
  | .condition c => Derivation.overdeep (c.segments 0)
  | .expression c => Derivation.overdeep (c.segments 0)
  | .constant c => c.overdeep 0
  | .token _ => []
  | .told _ => []

/-- The tokens of a program, with other tokens in its groups. -/
def Block.typed (fill : Filling) (c : Block) : List Token :=
  (Rendering.limited fill).tokens c.parts

/-- The tokens at which a program nests too deeply: in each group its first parenthesis, in a
    constant its first sign that is one too many. -/
def Block.overdeep (c : Block) : List Token := c.parts.flatMap Part.overdeep

theorem Part.typed_same (p : Part) : p.tokens (.limited .same) = p.tokens .asDerived := by
  cases p with
  | condition c => exact c.typed_same 0
  | expression c => exact c.typed_same 0
  | _ => rfl

/-- With what is derived there, the tokens of a program are those of its derivation. -/
theorem Block.typed_same (c : Block) : c.typed .same = c.tokens := by
  rw [← c.addUp.tokens]
  exact List.flatMap_congr fun p _ => p.typed_same

theorem typed_ne_end (fill : Filling) {xs : List Segment}
    (h : ∀ t ∈ Derivation.typed .same xs, t.kind ≠ .endOfFile) :
    ∀ t ∈ Derivation.typed fill xs, t.kind ≠ .endOfFile := by
  induction xs with
  | nil => simp
  | cons x xs ih =>
    rw [typed_cons, List.forall_mem_append] at h ⊢
    refine ⟨?_, ih h.2⟩
    cases x with
    | token t => exact h.1
    | group opening inside closing =>
      exact (Paired.parens opening.property (fill.paired inside) closing.property).ne_end

theorem Part.tokens_ne_end (fill : Filling) {p : Part}
    (h : ∀ t ∈ p.tokens .asDerived, t.kind ≠ .endOfFile) :
    ∀ t ∈ p.tokens (.limited fill), t.kind ≠ .endOfFile := by
  rw [← p.typed_same] at h
  cases p with
  | condition c => exact typed_ne_end fill h
  | expression c => exact typed_ne_end fill h
  | _ => exact h

/-- What fills the groups of a program does not end the input either. -/
theorem Block.typed_ne_end (fill : Filling) {c : Block} (h : ∀ t ∈ c.tokens, t.kind ≠ .endOfFile) :
    ∀ t ∈ c.typed fill, t.kind ≠ .endOfFile := by
  rw [← c.addUp.tokens] at h
  intro t ht
  obtain ⟨p, hp, ht⟩ := List.mem_flatMap.mp ht
  exact Part.tokens_ne_end fill (fun u hu => h u (List.mem_flatMap.mpr ⟨p, hp, hu⟩)) t ht

/-- What is reported about a part, apart from what can be wrong with a program anyway. -/
theorem Part.reports_parted (fill : Filling) {p : Part} (h : Admitted (p.reports .asDerived)) :
    (p.reports (.limited fill)).filter (·.problem.isComplaint) = p.reports .asDerived ∧
      (p.reports (.limited fill)).filter (!·.problem.isComplaint) =
        p.overdeep.map tooDeepAt := by
  have hdeep : ∀ ts : List Token,
      (ts.map tooDeepAt).filter (·.problem.isComplaint) = [] ∧
        (ts.map tooDeepAt).filter (!·.problem.isComplaint) = ts.map tooDeepAt := by
    intro ts
    rw [List.filter_eq_nil_iff, List.filter_eq_self]
    simp [tooDeepAt, Problem.isComplaint]
  cases p with
  | token t => exact ⟨rfl, rfl⟩
  | condition c => exact hdeep _
  | expression c => exact hdeep _
  | constant c => exact hdeep _
  | told ds =>
    refine ⟨List.filter_eq_self.mpr h, List.filter_eq_nil_iff.mpr fun d hd => ?_⟩
    simp [h d hd]

/-- What is reported about a program: its complaints, and each token at which it nests too
    deeply. -/
theorem Block.reports_parted (fill : Filling) (c : Block) :
    ((Rendering.limited fill).reports c.parts).filter (·.problem.isComplaint) = c.complaints ∧
      ((Rendering.limited fill).reports c.parts).filter (!·.problem.isComplaint) =
        c.overdeep.map tooDeepAt := by
  have hadmitted : Admitted (Rendering.asDerived.reports c.parts) := by
    rw [c.addUp.reports]
    exact c.complaints_admitted
  rw [← c.addUp.reports, Block.overdeep]
  generalize c.parts = ps at hadmitted
  induction ps with
  | nil => exact ⟨rfl, rfl⟩
  | cons p ps ih =>
    obtain ⟨hp, hps⟩ := List.forall_mem_append.mp hadmitted
    obtain ⟨hpart, hpart'⟩ := Part.reports_parted fill hp
    obtain ⟨hrest, hrest'⟩ := ih hps
    simp only [Rendering.reports_cons, List.filter_append, List.flatMap_cons, List.map_append]
    rw [hpart, hpart', hrest, hrest']
    exact ⟨rfl, rfl⟩

end PlZero.Derivation
