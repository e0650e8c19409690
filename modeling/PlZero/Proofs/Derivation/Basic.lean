/-
  PlZero/Proofs/Derivation/Basic.lean
  ===================================
  **Derivations of the grammar**, with the tokens that they yield.  There is one type for
  each nonterminal and one constructor for each of its alternatives; a repetition is a list
  of the parts that are repeated.  A token of a derivation carries the proof that it is of
  the kind that the grammar asks for, so that whatever has one of these types is derived by
  the grammar.
-/
import PlZero.Grammar.Rule
import PlZero.Token.Basic

namespace PlZero.Derivation

/-- A token of a kind. -/
abbrev TokenOf (k : Kind) : Type := { t : Token // t.kind = k }

/-- A token of a kind in a set. -/
abbrev TokenIn (ks : KindSet) : Type := { t : Token // t.kind ∈ ks }

/-! ### Expressions -/

mutual

/-- Factor → '(' Condition ')' | NUMBER | LValue -/
inductive Factor
  | name (name : TokenOf .identifier)
  | number (number : TokenOf .number)
  | parens (opening : TokenOf .leftParen) (inside : Condition) (closing : TokenOf .rightParen)

/-- Term → Factor { ( '*' | '/' ) Factor } -/
inductive Term
  | mk (first : Factor) (more : List (TokenIn multiplicativeKinds × Factor))

/-- Exp → [ '+' | '-' ] Term { ( '+' | '-' ) Term } -/
inductive Expression
  | mk (sign : Option (TokenIn additiveKinds)) (first : Term)
    (more : List (TokenIn additiveKinds × Term))

/-- Condition → Exp [ RelOp Exp ] -/
inductive Condition
  | plain (expression : Expression)
  | compared (left : Expression) (sign : TokenIn relationalKinds) (right : Expression)

end

/-! ### Declarations -/

/-- Constant → NUMBER | IDENTIFIER | '-' Constant -/
inductive Constant
  | number (number : TokenOf .number)
  | name (name : TokenOf .identifier)
  | negated (sign : TokenOf .minus) (operand : Constant)

/-- Type → IDENTIFIER | '[' Constant '..' Constant ']' -/
inductive TypeForm
  | name (name : TokenOf .identifier)
  | subrange (opening : TokenOf .leftBracket) (lower : Constant) (range : TokenOf .range)
    (upper : Constant) (closing : TokenOf .rightBracket)

/-- IDENTIFIER, a sign, what the name stands for, ';' -/
structure Definition (sign : Kind) (β : Type) where
  name : TokenOf .identifier
  sign : TokenOf sign
  meaning : β
  semicolon : TokenOf .semicolon

/-- A keyword and one definition or more. -/
structure Definitions (keyword sign : Kind) (β : Type) where
  keyword : TokenOf keyword
  first : Definition sign β
  more : List (Definition sign β)

/-! ### Statements -/

/-- LValue { ',' LValue } ':=' Condition { ',' Condition } -/
structure Assignment where
  target : TokenOf .identifier
  targets : List (TokenOf .comma × TokenOf .identifier)
  sign : TokenOf .assign
  value : Condition
  values : List (TokenOf .comma × Condition)

mutual

/-- Statement → Assignment | WhileStatement | IfStatement | ReadStatement
              | WriteStatement | CallStatement | CompoundStatement
              | SkipStatement | DoStatement -/
inductive Statement
  | assign (assignment : Assignment)
  | repeated (keyword : TokenOf .kwWhile) (test : Condition) (sign : TokenOf .kwDo)
    (body : Statement)
  | choice (keyword : TokenOf .kwIf) (test : Condition) (thenSign : TokenOf .kwThen)
    (thenBranch : Statement) (elseSign : TokenOf .kwElse) (elseBranch : Statement)
  | read (keyword : TokenOf .kwRead) (target : TokenOf .identifier)
  | write (keyword : TokenOf .kwWrite) (value : Expression)
  | call (keyword : TokenOf .kwCall) (name : TokenOf .identifier)
    (opening : TokenOf .leftParen) (closing : TokenOf .rightParen)
  | compound (compound : CompoundStatement)
  | skip (keyword : TokenOf .kwSkip)
  | guarded (keyword : TokenOf .kwDo) (first : DoBranch)
    (more : List (TokenOf .separator × DoBranch)) (closing : TokenOf .kwOd)

/-- CompoundStatement → 'begin' StatementList 'end' -/
inductive CompoundStatement
  | mk (opening : TokenOf .kwBegin) (list : StatementList) (closing : TokenOf .kwEnd)

/-- StatementList → Statement { ';' Statement } -/
inductive StatementList
  | mk (first : Statement) (more : List (TokenOf .semicolon × Statement))

/-- DoBranch → Condition 'then' StatementList [ 'exit' ] -/
inductive DoBranch
  | mk (test : Condition) (sign : TokenOf .kwThen) (body : StatementList)
    (exits : Option (TokenOf .kwExit))

end

/-! ### Blocks -/

mutual

/-- Block → { Declaration } CompoundStatement -/
inductive Block
  | mk (declarations : List Declaration) (body : CompoundStatement)

/-- Declaration → ConstDefList | TypeDefList | VarDeclList | ProcedureDef -/
inductive Declaration
  | constantList (definitions : Definitions .kwConst .equals Constant)
  | typeList (definitions : Definitions .kwType .equals TypeForm)
  | variableList (definitions : Definitions .kwVar .colon (TokenOf .identifier))
  | procedure (keyword : TokenOf .kwProcedure) (name : TokenOf .identifier)
    (opening : TokenOf .leftParen) (closing : TokenOf .rightParen) (sign : TokenOf .equals)
    (block : Block) (semicolon : TokenOf .semicolon)

end

/-! ### Tokens -/

mutual

def Factor.tokens : Factor → List Token
  | .name t => [t.val]
  | .number t => [t.val]
  | .parens opening inside closing => opening.val :: (inside.tokens ++ [closing.val])

def Factor.tokensMore : List (TokenIn multiplicativeKinds × Factor) → List Token
  | [] => []
  | (sign, factor) :: more => sign.val :: (factor.tokens ++ Factor.tokensMore more)

def Term.tokens : Term → List Token
  | .mk first more => first.tokens ++ Factor.tokensMore more

def Term.tokensMore : List (TokenIn additiveKinds × Term) → List Token
  | [] => []
  | (sign, term) :: more => sign.val :: (term.tokens ++ Term.tokensMore more)

def Expression.tokens : Expression → List Token
  | .mk none first more => first.tokens ++ Term.tokensMore more
  | .mk (some sign) first more => sign.val :: (first.tokens ++ Term.tokensMore more)

def Condition.tokens : Condition → List Token
  | .plain expression => expression.tokens
  | .compared left sign right => left.tokens ++ sign.val :: right.tokens

end

def Constant.tokens : Constant → List Token
  | .number t => [t.val]
  | .name t => [t.val]
  | .negated sign operand => sign.val :: operand.tokens

def TypeForm.tokens : TypeForm → List Token
  | .name t => [t.val]
  | .subrange opening lower range upper closing =>
    opening.val :: (lower.tokens ++ range.val :: (upper.tokens ++ [closing.val]))

def Definition.tokens {sign : Kind} {β : Type} (meaning : β → List Token)
    (d : Definition sign β) : List Token :=
  d.name.val :: d.sign.val :: (meaning d.meaning ++ [d.semicolon.val])

def Definitions.all {keyword sign : Kind} {β : Type} (d : Definitions keyword sign β) :
    List (Definition sign β) :=
  d.first :: d.more

def Definitions.tokens {keyword sign : Kind} {β : Type} (meaning : β → List Token)
    (d : Definitions keyword sign β) : List Token :=
  d.keyword.val :: d.all.flatMap (Definition.tokens meaning)

/-- The tokens of parts that stand behind separators. -/
def tokensBehind {P : Token → Prop} {γ : Type} (tokens : γ → List Token)
    (more : List ({ t // P t } × γ)) : List Token :=
  more.flatMap fun p => p.1.val :: tokens p.2

def Assignment.tokens (a : Assignment) : List Token :=
  a.target.val :: (tokensBehind (fun t => [t.val]) a.targets ++ a.sign.val ::
    (a.value.tokens ++ tokensBehind Condition.tokens a.values))

mutual

def Statement.tokens : Statement → List Token
  | .assign assignment => assignment.tokens
  | .repeated keyword test sign body => keyword.val :: (test.tokens ++ sign.val :: body.tokens)
  | .choice keyword test thenSign thenBranch elseSign elseBranch =>
    keyword.val :: (test.tokens ++
      thenSign.val :: (thenBranch.tokens ++ elseSign.val :: elseBranch.tokens))
  | .read keyword target => [keyword.val, target.val]
  | .write keyword value => keyword.val :: value.tokens
  | .call keyword name opening closing => [keyword.val, name.val, opening.val, closing.val]
  | .compound body => body.tokens
  | .skip keyword => [keyword.val]
  | .guarded keyword first more closing =>
    keyword.val :: (first.tokens ++ (DoBranch.tokensMore more ++ [closing.val]))

def CompoundStatement.tokens : CompoundStatement → List Token
  | .mk opening list closing => opening.val :: (list.tokens ++ [closing.val])

def StatementList.tokens : StatementList → List Token
  | .mk first more => first.tokens ++ StatementList.tokensMore more

def StatementList.tokensMore : List (TokenOf .semicolon × Statement) → List Token
  | [] => []
  | (sign, statement) :: more => sign.val :: (statement.tokens ++ StatementList.tokensMore more)

def DoBranch.tokens : DoBranch → List Token
  | .mk test sign body none => test.tokens ++ sign.val :: body.tokens
  | .mk test sign body (some keyword) => test.tokens ++ sign.val :: (body.tokens ++ [keyword.val])

def DoBranch.tokensMore : List (TokenOf .separator × DoBranch) → List Token
  | [] => []
  | (sign, branch) :: more => sign.val :: (branch.tokens ++ DoBranch.tokensMore more)

end

mutual

def Block.tokens : Block → List Token
  | .mk declarations body => Declaration.tokensAll declarations ++ body.tokens

def Declaration.tokens : Declaration → List Token
  | .constantList definitions => definitions.tokens Constant.tokens
  | .typeList definitions => definitions.tokens TypeForm.tokens
  | .variableList definitions => definitions.tokens fun t => [t.val]
  | .procedure keyword name opening closing sign block semicolon =>
    keyword.val :: name.val :: opening.val :: closing.val :: sign.val ::
      (block.tokens ++ [semicolon.val])

def Declaration.tokensAll : List Declaration → List Token
  | [] => []
  | d :: more => d.tokens ++ Declaration.tokensAll more

end

theorem Factor.tokensMore_eq (more : List (TokenIn multiplicativeKinds × Factor)) :
    Factor.tokensMore more = tokensBehind Factor.tokens more := by
  induction more with
  | nil => rfl
  | cons p more ih =>
    obtain ⟨sign, factor⟩ := p
    simp only [Factor.tokensMore, ih, tokensBehind, List.flatMap_cons, List.cons_append]

theorem Term.tokensMore_eq (more : List (TokenIn additiveKinds × Term)) :
    Term.tokensMore more = tokensBehind Term.tokens more := by
  induction more with
  | nil => rfl
  | cons p more ih =>
    obtain ⟨sign, term⟩ := p
    simp only [Term.tokensMore, ih, tokensBehind, List.flatMap_cons, List.cons_append]

theorem StatementList.tokensMore_eq (more : List (TokenOf .semicolon × Statement)) :
    StatementList.tokensMore more = tokensBehind Statement.tokens more := by
  induction more with
  | nil => rfl
  | cons p more ih =>
    obtain ⟨sign, statement⟩ := p
    simp only [StatementList.tokensMore, ih, tokensBehind, List.flatMap_cons, List.cons_append]

theorem DoBranch.tokensMore_eq (more : List (TokenOf .separator × DoBranch)) :
    DoBranch.tokensMore more = tokensBehind DoBranch.tokens more := by
  induction more with
  | nil => rfl
  | cons p more ih =>
    obtain ⟨sign, branch⟩ := p
    simp only [DoBranch.tokensMore, ih, tokensBehind, List.flatMap_cons, List.cons_append]

theorem Declaration.tokensAll_eq (declarations : List Declaration) :
    Declaration.tokensAll declarations = declarations.flatMap Declaration.tokens := by
  induction declarations with
  | nil => rfl
  | cons d more ih => rw [Declaration.tokensAll, ih, List.flatMap_cons]

end PlZero.Derivation
