/-
  PlZero/Grammar/Statements.lean
  ==============================
  **Reading statements.**  Rules that hold a statement are given its reader, so that
  the depth to which statements nest is bounded by the number it is built from
  (`statementWithin`).
-/
import PlZero.Grammar.Expressions
import PlZero.Tree.Program

namespace PlZero.Grammar

open Reader

/-- The name of a call that names nothing. -/
def missingName : String := "<noid>"

/-- A list made as long as another by placeholders. -/
def padded {α : Type} (filler : α) (n : Nat) (xs : List α) : List α :=
  xs ++ List.replicate (n - xs.length) filler

/-- Assignment → LValue { ',' LValue } ':=' Condition { ',' Condition }

The tokens that may follow a target include '=', which is often written for ':='.
Where the numbers of targets and values differ, the shorter side is padded. -/
def assignment (recover : KindSet) : Reader Statement :=
  attempt .assignment recover (fun l => .assign l [.error l] [.error l]) fun _ => do
    let targets ← separated .comma (demand .comma Starts.lvalue)
      (lvalue (recover ∪ {.assign, .equals, .comma}))
    let l ← location
    demand .assign Starts.condition
    let values ← separated .comma (demand .comma Starts.condition)
      (condition (recover ∪ {.comma}))
    reportUnless (targets.length = values.length) .unequalAssignment l
    let filler ← location
    return .assign l (padded (.error filler) values.length targets)
      (padded (.error filler) targets.length values)

/-- ReadStatement → 'read' LValue -/
def readStatement (recover : KindSet) : Reader Statement :=
  certainly .readStatement recover fun l => do
    expect .kwRead
    let target ← lvalue recover
    return .assign l [target] [.read l]

/-- WriteStatement → 'write' Exp -/
def writeStatement (recover : KindSet) : Reader Statement :=
  certainly .writeStatement recover fun l => do
    expect .kwWrite
    let value ← expression recover
    return .write l value

/-- The parentheses after the name of a procedure, with the name before them. -/
def nameAndParens (recover : KindSet) : Reader Unit := do
  demand .identifier {.leftParen}
  demand .leftParen {.rightParen}
  demand .rightParen recover

/-- The name of the procedure to call, if the head token is one. -/
def calledName : Reader String := do
  if ← headIs .identifier then name else return missingName

/-- CallStatement → 'call' IDENTIFIER '(' ')' -/
def callStatement (recover : KindSet) : Reader Statement :=
  certainly .callStatement recover fun l => do
    expect .kwCall
    let n ← calledName
    nameAndParens recover
    return .call l n (← currentScope)

/-- SkipStatement → 'skip' -/
def skipStatement (recover : KindSet) : Reader Statement :=
  certainly .skipStatement recover fun l => do
    expect .kwSkip
    return .skip l

/-- WhileStatement → 'while' Condition 'do' Statement -/
def whileStatement (statement : KindSet → Reader Statement) (recover : KindSet) :
    Reader Statement :=
  certainly .whileStatement recover fun l => do
    expect .kwWhile
    let test ← condition (recover ∪ {.kwDo})
    demand .kwDo Starts.statement
    let body ← statement recover
    return .repeated l test body

/-- IfStatement → 'if' Condition 'then' Statement 'else' Statement -/
def ifStatement (statement : KindSet → Reader Statement) (recover : KindSet) :
    Reader Statement :=
  certainly .ifStatement recover fun l => do
    expect .kwIf
    let test ← condition (recover ∪ {.kwThen})
    demand .kwThen Starts.statement
    let thenBranch ← statement (recover ∪ {.kwElse})
    demand .kwElse Starts.statement
    let elseBranch ← statement recover
    return .choice l test thenBranch elseBranch

/-- StatementList → Statement { ';' Statement } -/
def statementList (statement : KindSet → Reader Statement) (recover : KindSet) :
    Reader Statement :=
  attempt .statementList recover (fun l => .list l []) fun l => do
    let statements ← separated .semicolon (expect .semicolon)
      (statement (recover ∪ {.semicolon}))
    return .list l statements

/-- CompoundStatement → 'begin' StatementList 'end' -/
def compoundStatement (statement : KindSet → Reader Statement) (recover : KindSet) :
    Reader Statement :=
  attempt .compoundStatement recover .error fun _ => do
    expect .kwBegin
    let list ← statementList statement (recover ∪ {.kwEnd})
    demand .kwEnd recover
    return list

/-- DoBranch → Condition 'then' StatementList [ 'exit' ] -/
def doBranch (statement : KindSet → Reader Statement) (recover : KindSet) : Reader Branch :=
  attempt .doBranch recover (fun l => .mk l (.error l) (.list l []) false) fun l => do
    let test ← condition (recover ∪ {.kwThen})
    demand .kwThen Starts.statement
    let body ← statementList statement (recover ∪ {.kwExit})
    if ← headIs .kwExit then
      expect .kwExit
      return .mk l test body true
    else
      return .mk l test body false

/-- DoStatement → 'do' DoBranch { '[]' DoBranch } 'od' -/
def doStatement (statement : KindSet → Reader Statement) (recover : KindSet) :
    Reader Statement :=
  certainly .doStatement recover fun l => do
    expect .kwDo
    let branches ← separated .separator (expect .separator)
      (doBranch statement (recover ∪ {.separator, .kwOd}))
    demand .kwOd recover
    return .guarded l branches

/-- Statement → Assignment | WhileStatement | IfStatement | ReadStatement
              | WriteStatement | CallStatement | CompoundStatement
              | SkipStatement | DoStatement -/
def statementOver (statement : KindSet → Reader Statement) (recover : KindSet) :
    Reader Statement :=
  attempt .statement recover .error fun _ => do
    match (← head).kind with
    | .identifier => assignment recover
    | .kwWhile => whileStatement statement recover
    | .kwIf => ifStatement statement recover
    | .kwRead => readStatement recover
    | .kwWrite => writeStatement recover
    | .kwCall => callStatement recover
    | .kwBegin => compoundStatement statement recover
    | .kwSkip => skipStatement recover
    | .kwDo => doStatement statement recover
    | _ => unreachable .statement

/-- A statement that nests less deep than the given number. -/
def statementWithin : Nat → KindSet → Reader Statement
  | 0, _ => tooDeep
  | n + 1, recover => statementOver (fun r => statementWithin n r) recover

end PlZero.Grammar
