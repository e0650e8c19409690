/-
  PlZero/Grammar/Blocks.lean
  ==========================
  **Reading procedures, blocks and programs.**  Every block has a scope of its own,
  also the block of a procedure whose name is missing or taken.

  How deep procedures and statements may nest is no rule of the language.  It is as deep as
  the host has room for a reader that calls itself, so whoever reads a program says how deep
  that is (`maxDepth`), and a program that nests deeper ends the run.  Parentheses and the
  signs of constants have a limit of their own (`maxNesting`), which is a rule.
-/
import PlZero.Grammar.Declarations
import PlZero.Grammar.Statements

namespace PlZero.Grammar

open Reader

/-- The name of a procedure that was given none. -/
def undefinedName : String := "<undefined>"

/-- Adds the entry of a procedure that no name refers to. -/
def detachedProcedure (n : String) (l : Location) : Reader Entry := do
  let added ← reads fun s => s.symbols.addDetached n l
  modify fun s => { s with symbols := added.2 }
  return added.1

/-- The entry of the procedure that the head token names, if it names one. -/
def procedureEntry : Reader Entry := do
  let l ← location
  if ← headIs .identifier then
    let n ← name
    let symbols ← reads ReaderState.symbols
    match ← declared .procedureName n l (symbols.declareProcedure n l) with
    | some entry => return entry
    | none => detachedProcedure n l
  else
    detachedProcedure undefinedName l

/-- ProcedureHead → 'procedure' IDENTIFIER '(' ')' -/
def procedureHeader (recover : KindSet) : Reader Entry :=
  certainly .procedureHeader recover fun _ => do
    expect .kwProcedure
    let entry ← procedureEntry
    nameAndParens recover
    return entry

/-- ProcedureDef → ProcedureHead '=' Block ';'

The tokens that may follow the head include those that start a block, since '=' is
easily forgotten. -/
def procedureDefinition (block : Nat → KindSet → Reader Block) (recover : KindSet) :
    Reader Procedure :=
  certainly .procedureDefinition recover fun l => do
    let entry ← procedureHeader (recover ∪ ({.equals} ∪ Starts.block))
    let body ← inScope entry.index fun scope => do
      demand .equals Starts.block
      block scope (recover ∪ {.semicolon})
    demand .semicolon recover
    return .mk l entry.name entry.index body

/-- Declaration → ConstDefList | TypeDefList | VarDeclList | ProcedureDef -/
def declaration (block : Nat → KindSet → Reader Block) (recover : KindSet) :
    Reader (Option Procedure) :=
  certainly .declaration recover fun _ => do
    match (← head).kind with
    | .kwConst =>
      constantList recover
      return none
    | .kwType =>
      typeList recover
      return none
    | .kwVar =>
      variableList recover
      return none
    | .kwProcedure => return some (← procedureDefinition block recover)
    | _ => unreachable .declaration

/-- Block → { Declaration } CompoundStatement -/
def blockOver (statement : KindSet → Reader Statement)
    (block : Nat → KindSet → Reader Block) (scope : Nat) (recover : KindSet) : Reader Block :=
  attempt .block recover (fun l => .mk l scope [] (.error l)) fun _ => do
    let found ← whileIn Starts.declaration (fun found => do
      match ← declaration block (recover ∪ Starts.block) with
      | some procedure => return procedure :: found
      | none => return found) []
    let body ← compoundStatement statement recover
    return .mk body.location scope found.reverse body

/-- A block in which procedures and statements nest less deep than the given number. -/
def blockWithin : Nat → Nat → KindSet → Reader Block
  | 0, _, _ => tooDeep
  | n + 1, scope, recover =>
    blockOver (statementWithin n) (fun s r => blockWithin n s r) scope recover

/-- Program → Block, up to the end of the input. -/
def program (maxDepth : Nat) (recover : KindSet) : Reader Program := do
  let block ← inScope SymbolTable.mainIndex fun scope =>
    attempt .program recover (fun l => .mk l scope [] (.error l)) fun _ =>
      blockWithin maxDepth scope recover
  return ⟨block.location, block⟩

/-! ### Whole programs -/

/-- A program that was read: its tree, its symbol table, and what happened. -/
structure Parsed where
  program : Program
  symbols : SymbolTable
  journal : Journal

/-- Reads a program, with remarks for the log. -/
def wholeProgram (maxDepth : Nat) : Reader Program := do
  note .parsing
  let p ← program maxDepth {.endOfFile}
  note (.parsed (← reads fun s => s.stream.journal.reportCount))
  return p

/-- Reads a program off scans.  `journal` holds what has happened before. -/
def parse (maxDepth : Nat) (scans : List Scan) (journal : Journal) :
    Except (Abort × Journal) Parsed :=
  match Stream.start scans journal with
  | .error e => .error e
  | .ok stream =>
    match wholeProgram maxDepth ⟨stream, .initial, 0⟩ with
    | .ok p s => .ok ⟨p, s.symbols, s.stream.journal⟩
    | .error e s => .error (e, s.stream.journal)

end PlZero.Grammar
