/-
  PlZero/Grammar/Rule.lean
  ========================
  **The rules of the grammar**, what each is called in messages, and the tokens that
  can start it.

      Program        → Block
      Block          → { Declaration } CompoundStatement
      Declaration    → ConstDefList | TypeDefList | VarDeclList | ProcedureDef
      ConstDefList   → 'const' ConstDef { ConstDef }
      ConstDef       → IDENTIFIER '=' Constant ';'
      Constant       → NUMBER | IDENTIFIER | '-' Constant
      TypeDefList    → 'type' TypeDef { TypeDef }
      TypeDef        → IDENTIFIER '=' Type ';'
      Type           → TypeIdentifier | SubrangeType
      TypeIdentifier → IDENTIFIER
      SubrangeType   → '[' Constant '..' Constant ']'
      VarDeclList    → 'var' VarDecl { VarDecl }
      VarDecl        → IDENTIFIER ':' TypeIdentifier ';'
      ProcedureDef   → ProcedureHead '=' Block ';'
      ProcedureHead  → 'procedure' IDENTIFIER '(' ')'
      CompoundStatement → 'begin' StatementList 'end'
      StatementList  → Statement { ';' Statement }
      Statement      → Assignment | WhileStatement | IfStatement | ReadStatement
                     | WriteStatement | CallStatement | CompoundStatement
                     | SkipStatement | DoStatement
      Assignment     → LValue { ',' LValue } ':=' Condition { ',' Condition }
      WhileStatement → 'while' Condition 'do' Statement
      IfStatement    → 'if' Condition 'then' Statement 'else' Statement
      DoStatement    → 'do' DoBranch { '[]' DoBranch } 'od'
      DoBranch       → Condition 'then' StatementList [ 'exit' ]
      ReadStatement  → 'read' LValue
      WriteStatement → 'write' Exp
      CallStatement  → 'call' IDENTIFIER '(' ')'
      SkipStatement  → 'skip'
      Condition      → Exp [ RelOp Exp ]
      RelOp          → '=' | '!=' | '<' | '>' | '<=' | '>='
      Exp            → [ '+' | '-' ] Term { ( '+' | '-' ) Term }
      Term           → Factor { ( '*' | '/' ) Factor }
      Factor         → '(' Condition ')' | NUMBER | LValue
      LValue         → IDENTIFIER
-/
import PlZero.Token.KindSet

namespace PlZero

/-- A rule of the grammar. -/
inductive Rule
  | program | block | declaration
  | constantList | constantDefinition | constant
  | typeList | typeDefinition | type | subrangeType | typeIdentifier
  | variableList | variableDeclaration
  | procedureDefinition | procedureHeader
  | compoundStatement | statementList | statement
  | assignment | whileStatement | ifStatement | doStatement | doBranch
  | readStatement | writeStatement | callStatement | skipStatement
  | condition | relOp | expression | term | factor | lvalue
  deriving DecidableEq, Repr

/-! ### Start sets -/

namespace Starts

/-- What an assignment target starts with. -/
def lvalue : KindSet := {.identifier}

/-- What a statement starts with. -/
def statement : KindSet :=
  {.identifier, .kwWhile, .kwIf, .kwRead, .kwWrite, .kwCall, .kwBegin, .kwSkip, .kwDo}

/-- What a declaration starts with. -/
def declaration : KindSet := {.kwConst, .kwType, .kwVar, .kwProcedure}

/-- What a block starts with: its first declaration, or its body. -/
def block : KindSet := declaration ∪ {.kwBegin}

/-- What a constant starts with. -/
def constant : KindSet := {.identifier, .number, .minus}

/-- What a type starts with. -/
def type : KindSet := {.identifier, .leftBracket}

/-- What a factor starts with. -/
def factor : KindSet := {.identifier, .number, .leftParen}

/-- What a term starts with. -/
def term : KindSet := factor

/-- What an expression starts with: a sign, or its first term. -/
def expression : KindSet := term ∪ {.plus, .minus}

/-- What a condition starts with. -/
def condition : KindSet := expression

end Starts

/-- The relational operators. -/
def relationalKinds : KindSet :=
  {.equals, .notEquals, .less, .greater, .lessEquals, .greaterEquals}

/-- The operators between terms, which may also stand before the first. -/
def additiveKinds : KindSet := {.plus, .minus}

/-- The operators between factors. -/
def multiplicativeKinds : KindSet := {.times, .divide}

namespace Rule

/-- What a rule is called in messages. -/
def title : Rule → String
  | program => "Program"
  | block => "Block"
  | declaration => "Declaration"
  | constantList => "Constant Definition List"
  | constantDefinition => "Constant Definition"
  | constant => "Constant"
  | typeList => "Type Definition List"
  | typeDefinition => "Type Definition"
  | type => "Type"
  | subrangeType => "Subrange Type"
  | typeIdentifier => "Type Identifier"
  | variableList => "Variable Declaration List"
  | variableDeclaration => "Variable Declaration"
  | procedureDefinition => "Procedure Definition"
  | procedureHeader => "Procedure Header"
  | compoundStatement => "Compound Statement"
  | statementList => "Statement List"
  | statement => "Statement"
  | assignment => "Assignment"
  | whileStatement => "While Statement"
  | ifStatement => "If Statement"
  | doStatement => "Do Statement"
  | doBranch => "Do Branch"
  | readStatement => "Read Statement"
  | writeStatement => "Write Statement"
  | callStatement => "Call Statement"
  | skipStatement => "Skip Statement"
  | condition => "Condition"
  | relOp => "RelOp"
  | expression => "Expression"
  | term => "Term"
  | factor => "Factor"
  | lvalue => "LValue"

/-- The kinds of token that can start a rule. -/
def starts : Rule → KindSet
  | program | block => Starts.block
  | declaration => Starts.declaration
  | constantList => {.kwConst}
  | constantDefinition => {.identifier}
  | constant => Starts.constant
  | typeList => {.kwType}
  | typeDefinition => {.identifier}
  | type => Starts.type
  | subrangeType => {.leftBracket}
  | typeIdentifier => {.identifier}
  | variableList => {.kwVar}
  | variableDeclaration => {.identifier}
  | procedureDefinition | procedureHeader => {.kwProcedure}
  | compoundStatement => {.kwBegin}
  | statementList | statement => Starts.statement
  | assignment => Starts.lvalue
  | whileStatement => {.kwWhile}
  | ifStatement => {.kwIf}
  | doStatement => {.kwDo}
  | doBranch => Starts.condition
  | readStatement => {.kwRead}
  | writeStatement => {.kwWrite}
  | callStatement => {.kwCall}
  | skipStatement => {.kwSkip}
  | condition => Starts.condition
  | relOp => relationalKinds
  | expression => Starts.expression
  | term => Starts.term
  | factor => Starts.factor
  | lvalue => Starts.lvalue

end Rule

end PlZero
