/-
  PlZero/Grammar/Declarations.lean
  ================================
  **Reading constant, type and variable declarations.**  A name that its scope holds
  already is reported at the place of the declaration and left alone.
-/
import PlZero.Grammar.Expressions

namespace PlZero.Grammar

open Reader

/-! ### Constants -/

/-- Constant → NUMBER | IDENTIFIER | '-' Constant -/
def constantOver (operand : KindSet → Reader Constant) (recover : KindSet) :
    Reader Constant := do
  let scope ← currentScope
  attempt .constant recover (fun l => .error l scope) fun l => do
    match (← head).kind with
    | .number =>
      let value ← number
      expect .number
      return .number l scope value
    | .identifier =>
      let n ← name
      expect .identifier
      return .named l scope n
    | .minus =>
      expect .minus
      if ← atLimit then
        report .expressionTooDeep l
        skipTo recover
        return .error l scope
      else
        return .negated l scope (← deeper (operand recover))
    | _ => unreachable .constant

/-- A constant in which constants nest less deep than the given number. -/
def constantWithin : Nat → KindSet → Reader Constant
  | 0, _ => tooDeep
  | n + 1, recover => constantOver (fun r => constantWithin n r) recover

/-- A constant of a declaration. -/
def constant (recover : KindSet) : Reader Constant :=
  constantOver (constantWithin maxNesting) recover

/-! ### Definitions -/

/-- IDENTIFIER, a sign, what the name stands for, ';'

What the name stands for is declared before the semicolon is looked for. -/
def definition {β : Type} (r : Rule) (sign : Kind) (follow : KindSet)
    (meaning : KindSet → Reader β) (declare : String → Location → β → Reader Unit)
    (recover : KindSet) : Reader Unit :=
  attempt r recover (fun _ => ()) fun _ => do
    let n ← name
    let l ← location
    expect .identifier
    demand sign follow
    let m ← meaning (recover ∪ {.semicolon})
    declare n l m
    demand .semicolon recover

/-- A keyword and one definition or more. -/
def definitionList (r : Rule) (keyword : Kind) (item : KindSet → Reader Unit)
    (recover : KindSet) : Reader Unit :=
  certainly r recover fun _ => do
    expect keyword
    item (recover ∪ {.identifier})
    whileIn {.identifier} (fun _ => item (recover ∪ {.identifier})) ()

/-! ### Constant definitions -/

/-- Declares a constant. -/
def declareConstant (n : String) (l : Location) (tree : Constant) : Reader Unit := do
  let symbols ← reads ReaderState.symbols
  match symbols.declareConstant n l tree with
  | .ok outcome => let _ ← declared .constantName n l outcome
  | .error why => throw (.unfoldable why)

/-- ConstDef → IDENTIFIER '=' Constant ';' -/
def constantDefinition : KindSet → Reader Unit :=
  definition .constantDefinition .equals Starts.constant constant declareConstant

/-- ConstDefList → 'const' ConstDef { ConstDef } -/
def constantList : KindSet → Reader Unit :=
  definitionList .constantList .kwConst constantDefinition

/-! ### Types -/

/-- TypeIdentifier → IDENTIFIER -/
def typeIdentifier (recover : KindSet) : Reader TypeExpr :=
  attempt .typeIdentifier recover (fun _ => .error) fun _ => do
    let n ← name
    let scope ← currentScope
    let l ← location
    expect .identifier
    return .named n scope l

/-- SubrangeType → '[' Constant '..' Constant ']' -/
def subrangeType (recover : KindSet) : Reader TypeExpr :=
  attempt .subrangeType recover (fun _ => .error) fun _ => do
    expect .leftBracket
    let lower ← constant (recover ∪ {.range})
    demand .range Starts.constant
    let upper ← constant (recover ∪ {.rightBracket})
    demand .rightBracket recover
    return .subrange lower upper

/-- Type → TypeIdentifier | SubrangeType -/
def typeExpr (recover : KindSet) : Reader TypeExpr :=
  attempt .type recover (fun _ => .error) fun _ => do
    match (← head).kind with
    | .identifier => typeIdentifier recover
    | .leftBracket => subrangeType recover
    | _ => unreachable .type

/-- Declares a type. -/
def declareType (n : String) (l : Location) (meaning : TypeExpr) : Reader Unit := do
  let symbols ← reads ReaderState.symbols
  let _ ← declared .typeName n l (symbols.declareType n l meaning)

/-- TypeDef → IDENTIFIER '=' Type ';' -/
def typeDefinition : KindSet → Reader Unit :=
  definition .typeDefinition .equals Starts.type typeExpr declareType

/-- TypeDefList → 'type' TypeDef { TypeDef } -/
def typeList : KindSet → Reader Unit :=
  definitionList .typeList .kwType typeDefinition

/-! ### Variables -/

/-- Declares a variable. -/
def declareVariable (n : String) (l : Location) (base : TypeExpr) : Reader Unit := do
  let symbols ← reads ReaderState.symbols
  let _ ← declared .variableName n l (symbols.declareVariable n l base)

/-- VarDecl → IDENTIFIER ':' TypeIdentifier ';' -/
def variableDeclaration : KindSet → Reader Unit :=
  definition .variableDeclaration .colon Starts.type typeIdentifier declareVariable

/-- VarDeclList → 'var' VarDecl { VarDecl } -/
def variableList : KindSet → Reader Unit :=
  definitionList .variableList .kwVar variableDeclaration

end PlZero.Grammar
