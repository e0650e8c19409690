/-
  PlZero/Token/Kind.lean
  ======================
  **The terminal symbols of PL/0**: operators, delimiters, reserved words, and the
  three kinds of token that carry a payload.  A kind has a name, by which it is
  referred to, and a spelling, by which it is shown and, unless it carries a
  payload or ends the input, also written in a program.
-/

namespace PlZero

/-- A terminal symbol, in the order of declaration. -/
inductive Kind
  | endOfFile
  | plus | minus | times | divide
  | equals | notEquals | lessEquals | less | greaterEquals | greater
  | logAnd | logOr | logNot
  | assign | range
  | leftParen | rightParen | leftBracket | rightBracket
  | semicolon | colon | comma | separator
  | kwBegin | kwCall | kwConst | kwDo | kwElse | kwEnd | kwExit | kwIf | kwOd
  | kwProcedure | kwRead | kwSkip | kwThen | kwType | kwVar | kwWhile | kwWrite
  | identifier | number | illegal
  deriving DecidableEq, Repr, Inhabited

namespace Kind

/-- Every kind, in the order of declaration. -/
def all : List Kind := [
  endOfFile, plus, minus, times, divide, equals, notEquals, lessEquals, less, greaterEquals,
  greater, logAnd, logOr, logNot, assign, range, leftParen, rightParen, leftBracket, rightBracket,
  semicolon, colon, comma, separator, kwBegin, kwCall, kwConst, kwDo, kwElse, kwEnd, kwExit, kwIf,
  kwOd, kwProcedure, kwRead, kwSkip, kwThen, kwType, kwVar, kwWhile, kwWrite, identifier, number,
  illegal]

/-- The name by which a kind is referred to. -/
def name : Kind → String
  | endOfFile => "EOF"
  | plus => "PLUS" | minus => "MINUS" | times => "TIMES" | divide => "DIVIDE"
  | equals => "EQUALS" | notEquals => "NEQUALS"
  | lessEquals => "LEQUALS" | less => "LESS" | greaterEquals => "GEQUALS" | greater => "GREATER"
  | logAnd => "LOG_AND" | logOr => "LOG_OR" | logNot => "LOG_NOT"
  | assign => "ASSIGN" | range => "RANGE"
  | leftParen => "LPAREN" | rightParen => "RPAREN"
  | leftBracket => "LBRACKET" | rightBracket => "RBRACKET"
  | semicolon => "SEMICOLON" | colon => "COLON" | comma => "COMMA" | separator => "SEPARATOR"
  | kwBegin => "KW_BEGIN" | kwCall => "KW_CALL" | kwConst => "KW_CONST" | kwDo => "KW_DO"
  | kwElse => "KW_ELSE" | kwEnd => "KW_END" | kwExit => "KW_EXIT" | kwIf => "KW_IF"
  | kwOd => "KW_OD" | kwProcedure => "KW_PROCEDURE" | kwRead => "KW_READ" | kwSkip => "KW_SKIP"
  | kwThen => "KW_THEN" | kwType => "KW_TYPE" | kwVar => "KW_VAR" | kwWhile => "KW_WHILE"
  | kwWrite => "KW_WRITE"
  | identifier => "IDENTIFIER" | number => "NUMBER" | illegal => "ILLEGAL"

/-- How a kind is shown in messages. -/
def spelling : Kind → String
  | endOfFile => "End-of-file"
  | plus => "+" | minus => "-" | times => "*" | divide => "/"
  | equals => "=" | notEquals => "!="
  | lessEquals => "<=" | less => "<" | greaterEquals => ">=" | greater => ">"
  | logAnd => "&&" | logOr => "||" | logNot => "!"
  | assign => ":=" | range => ".."
  | leftParen => "(" | rightParen => ")"
  | leftBracket => "[" | rightBracket => "]"
  | semicolon => ";" | colon => ":" | comma => "," | separator => "[]"
  | kwBegin => "begin" | kwCall => "call" | kwConst => "const" | kwDo => "do"
  | kwElse => "else" | kwEnd => "end" | kwExit => "exit" | kwIf => "if"
  | kwOd => "od" | kwProcedure => "procedure" | kwRead => "read" | kwSkip => "skip"
  | kwThen => "then" | kwType => "type" | kwVar => "var" | kwWhile => "while"
  | kwWrite => "write"
  | identifier => "identifier" | number => "number" | illegal => "illegal"

/-- The kinds whose spellings are reserved words. -/
def keywords : List Kind := [
  kwBegin, kwCall, kwConst, kwDo, kwElse, kwEnd, kwExit, kwIf, kwOd, kwProcedure, kwRead, kwSkip,
  kwThen, kwType, kwVar, kwWhile, kwWrite]

/-- The kind of a reserved word. -/
def ofKeyword? (word : String) : Option Kind := keywords.find? fun k => k.spelling == word

/-- The kind of a given name. -/
def ofName? (name : String) : Option Kind := all.find? fun k => k.name == name

/-- The kind spelled by two characters, for the operators that two characters spell. -/
def ofPair? : Char → Char → Option Kind
  | ':', '=' => some assign
  | '.', '.' => some range
  | '!', '=' => some notEquals
  | '<', '=' => some lessEquals
  | '>', '=' => some greaterEquals
  | '&', '&' => some logAnd
  | '|', '|' => some logOr
  | '[', ']' => some separator
  | _, _ => none

/-- The kind spelled by one character, for the operators and delimiters that one
    character spells. -/
def ofChar? : Char → Option Kind
  | '+' => some plus
  | '-' => some minus
  | '*' => some times
  | '/' => some divide
  | '=' => some equals
  | '<' => some less
  | '>' => some greater
  | '!' => some logNot
  | '(' => some leftParen
  | ')' => some rightParen
  | '[' => some leftBracket
  | ']' => some rightBracket
  | ';' => some semicolon
  | ':' => some colon
  | ',' => some comma
  | _ => none

theorem mem_all (k : Kind) : k ∈ all := by cases k <;> decide

end Kind

end PlZero
