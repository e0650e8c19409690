/-
  PlZero/Grammar/Expressions.lean
  ===============================
  **Reading conditions and expressions.**  Operators of one rank associate to the
  left, a sign stands before the first term and negates that term alone, and
  parentheses leave no node.

  Parentheses nest at most `maxNesting` deep; a pair that nests deeper is passed over
  with all that stands in it.  A rule is given the reader of the condition between one
  more pair of parentheses (`conditionWithin`).
-/
import PlZero.Grammar.Reading
import PlZero.Tree.Expression

namespace PlZero.Grammar

open Reader

/-- The operator of a relational kind. -/
def relational : Kind → Operator
  | .notEquals => .notEquals
  | .less => .less
  | .greater => .greater
  | .lessEquals => .lessEquals
  | .greaterEquals => .greaterEquals
  | _ => .equals

/-- The operator of an additive kind. -/
def additive : Kind → Operator
  | .minus => .sub
  | _ => .add

/-- The operator of a multiplicative kind. -/
def multiplicative : Kind → Operator
  | .divide => .div
  | _ => .mul

/-- LValue → IDENTIFIER -/
def lvalue (recover : KindSet) : Reader Expression :=
  attempt .lvalue recover .error fun l => do
    let n ← name
    let scope ← currentScope
    expect .identifier
    return .identifier l n scope

/-- Factor → '(' Condition ')' | NUMBER | LValue -/
def factorOver (inside : KindSet → Reader Expression) (recover : KindSet) :
    Reader Expression :=
  attempt .factor recover .error fun l => do
    match (← head).kind with
    | .identifier => lvalue recover
    | .number =>
      let value ← number
      expect .number
      return .number l value
    | .leftParen =>
      expect .leftParen
      if ← atLimit then
        report .expressionTooDeep l
        onStream Stream.skipParenthesised
        return .error l
      else
        let e ← deeper (inside (recover ∪ {.rightParen}))
        demand .rightParen recover
        return e
    | _ => unreachable .factor

/-- More parts of an expression, each behind an operator of one rank. -/
def joined (kinds : KindSet) (operator : Kind → Operator) (part : Reader Expression)
    (first : Expression) : Reader Expression :=
  whileIn kinds (fun left => do
    let sign ← head
    expect sign.kind
    let right ← part
    return .binary sign.location (operator sign.kind) left right) first

/-- Term → Factor { ( '*' | '/' ) Factor } -/
def termOver (inside : KindSet → Reader Expression) (recover : KindSet) :
    Reader Expression :=
  attempt .term recover .error fun _ => do
    let factor := factorOver inside (recover ∪ multiplicativeKinds)
    joined multiplicativeKinds multiplicative factor (← factor)

/-- The sign that an expression may begin with.  Tells whether it is a minus. -/
def leadingSign : Reader Bool := do
  let sign ← head
  if additiveKinds.contains sign.kind then
    expect sign.kind
    return sign.kind == .minus
  else
    return false

/-- Exp → [ '+' | '-' ] Term { ( '+' | '-' ) Term } -/
def expressionOver (inside : KindSet → Reader Expression) (recover : KindSet) :
    Reader Expression :=
  attempt .expression recover .error fun l => do
    let term := termOver inside (recover ∪ additiveKinds)
    let negative ← leadingSign
    let first ← term
    joined additiveKinds additive term (if negative then .unary l .neg first else first)

/-- RelOp → '=' | '!=' | '<' | '>' | '<=' | '>=' -/
def relOp (recover : KindSet) : Reader Operator :=
  certainly .relOp recover fun _ => do
    let sign ← head
    expect sign.kind
    return relational sign.kind

/-- Condition → Exp [ RelOp Exp ] -/
def conditionOver (inside : KindSet → Reader Expression) (recover : KindSet) :
    Reader Expression :=
  attempt .condition recover .error fun _ => do
    let left ← expressionOver inside (recover ∪ relationalKinds)
    if ← headIn relationalKinds then
      let l ← location
      let op ← relOp (recover ∪ Starts.expression)
      let right ← expressionOver inside recover
      return .binary l op left right
    else
      return left

/-- A condition in which conditions nest less deep than the given number. -/
def conditionWithin : Nat → KindSet → Reader Expression
  | 0, _ => tooDeep
  | n + 1, recover => conditionOver (fun r => conditionWithin n r) recover

/-- A condition of a statement. -/
def condition (recover : KindSet) : Reader Expression :=
  conditionOver (conditionWithin maxNesting) recover

/-- An expression of a statement. -/
def expression (recover : KindSet) : Reader Expression :=
  expressionOver (conditionWithin maxNesting) recover

end PlZero.Grammar
