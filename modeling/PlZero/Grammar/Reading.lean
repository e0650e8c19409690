/-
  PlZero/Grammar/Reading.lean
  ===========================
  **Reading with recovery.**  A reader works on a token stream and a symbol table.
  Most rules are given the tokens that their caller waits for, and stand in one of
  two brackets: `attempt` for a rule whose start still has to be found, which yields
  a placeholder if it is not, and `certainly` for a rule that was chosen by the head
  token.
-/
import PlZero.Grammar.Rule
import PlZero.Scope.Table
import PlZero.Stream.Basic

namespace PlZero

/-- How deep parentheses and negated constants may nest. -/
def Grammar.maxNesting : Nat := 100

/-- What a reader works on.  `nesting` counts the parentheses and the signs of a
    constant that are open. -/
structure ReaderState where
  stream : Stream
  symbols : SymbolTable
  nesting : Nat
  deriving Inhabited

/-- Reads something off a token stream. -/
abbrev Reader := EStateM Abort ReaderState

namespace Reader

/-- An operation on the token stream, as a reader. -/
def onStream {α : Type} (op : StreamM α) : Reader α := fun s =>
  match op s.stream with
  | .ok a t => .ok a { s with stream := t }
  | .error e t => .error e { s with stream := t }

/-- Looks something up and changes nothing. -/
def reads {α : Type} (look : ReaderState → α) : Reader α := fun s => .ok (look s) s

/-- The head token. -/
def head : Reader Token := reads fun s => s.stream.head

/-- The place of the head token. -/
def location : Reader Location := reads fun s => s.stream.head.location

/-- Whether the head token is of a kind. -/
def headIs (k : Kind) : Reader Bool := reads fun s => s.stream.headIs k

/-- Whether the kind of the head token belongs to a set. -/
def headIn (kinds : KindSet) : Reader Bool := reads fun s => s.stream.headIn kinds

/-- The name of the head token, which has to be an identifier. -/
def name : Reader String := do return (← onStream Stream.name).name

/-- The value of the head token, which has to be a number. -/
def number : Reader Int := do return (← onStream Stream.number).value

/-- Consumes a token that the caller has looked at. -/
def expect (k : Kind) : Reader Unit := onStream (Stream.expect k)

/-- Consumes a token of a kind, or reports that it is missing and skips. -/
def demand (k : Kind) (follow : KindSet) : Reader Unit := do
  let _ ← onStream (Stream.demand k follow)

/-- Skips to a token of a kind in a set. -/
def skipTo (find : KindSet) : Reader Unit := onStream (Stream.skipTo find)

/-- Reports an error at a place. -/
def report (p : Problem) (l : Location) : Reader Unit :=
  modify fun s => { s with stream := s.stream.report p l }

/-- Reports an error at a place unless a condition holds. -/
def reportUnless (holds : Prop) [Decidable holds] (p : Problem) (l : Location) :
    Reader Unit :=
  if holds then pure () else report p l

/-- Leaves a remark for the log. -/
def note (n : Note) : Reader Unit :=
  modify fun s => { s with stream := { s.stream with journal := .note n :: s.stream.journal } }

/-- The end of a run at a branch that the head token cannot have led to. -/
def unreachable {α : Type} (r : Rule) : Reader α := do
  let l ← location
  onStream (Stream.fatal (.unreachable r.title) l)

/-- The end of a run whose rules are nested beyond the limit. -/
def tooDeep {α : Type} : Reader α := fun s =>
  .error .tooDeep { s with stream := { s.stream with
    journal := Stream.fatally .programTooDeep s.stream.head.location s.stream.journal } }

/-- The number of the innermost open scope. -/
def currentScope : Reader Nat := reads fun s => s.symbols.current

/-! ### Nesting -/

/-- Whether parentheses or signs nest as deep as they may. -/
def atLimit : Reader Bool := reads fun s => decide (Grammar.maxNesting ≤ s.nesting)

/-- Reads something one level of nesting deeper. -/
def deeper {α : Type} (m : Reader α) : Reader α := do
  modify fun s => { s with nesting := s.nesting + 1 }
  let a ← m
  modify fun s => { s with nesting := s.nesting - 1 }
  return a

/-! ### Rules -/

/-- Reads a rule whose start has yet to be found.  The body is given the place at
    which the rule was looked for, and so is the placeholder for a rule that is
    abandoned. -/
def attempt {α : Type} (r : Rule) (recover : KindSet) (placeholder : Location → α)
    (body : Location → Reader α) : Reader α := do
  let l ← location
  if ← onStream (Stream.beginRule r.title r.starts recover) then
    let a ← body l
    onStream (Stream.endRule r.title recover)
    return a
  else
    return placeholder l

/-- Reads a rule that the head token was seen to start.  The body is given the place
    of that token. -/
def certainly {α : Type} (r : Rule) (recover : KindSet) (body : Location → Reader α) :
    Reader α := do
  onStream (Stream.beginCertain r.title r.starts)
  let a ← body (← location)
  onStream (Stream.endRule r.title recover)
  return a

/-- Goes on as long as the head token is of a kind in `kinds`, for at most one turn
    more than there are scans in the list. -/
def repeatWhile {α : Type} (kinds : KindSet) (turn : α → Reader α) : List Scan → α → Reader α
  | [], a => do
    if ← headIn kinds then turn a else return a
  | _ :: scans, a => do
    if ← headIn kinds then repeatWhile kinds turn scans (← turn a) else return a

/-- Goes on as long as the head token is of a kind in `kinds`.  Every turn consumes a
    token, so that there are no more turns than the head and the scans behind it. -/
def whileIn {α : Type} (kinds : KindSet) (turn : α → Reader α) (a : α) : Reader α := do
  let scans ← reads fun s => s.stream.rest
  repeatWhile kinds turn scans a

/-- Reads a part, and more of them as long as a separator of a kind stands before
    them, which `pass` takes. -/
def separated {α : Type} (sign : Kind) (pass : Reader Unit) (part : Reader α) :
    Reader (List α) := do
  let first ← part
  let found ← whileIn {sign} (fun found => do
    pass
    return (← part) :: found) [first]
  return found.reverse

/-! ### Scopes -/

/-- Opens a scope for the body of a procedure. -/
def enterScope (owner : Nat) : Reader Nat := do
  let symbols ← reads ReaderState.symbols
  modify fun s => { s with symbols := (symbols.enter owner).2 }
  note (.scopeEntered (symbols.enter owner).1
    ((symbols.entries[owner]?.map Entry.name).getD ""))
  return (symbols.enter owner).1

/-- Closes the innermost open scope. -/
def leaveScope : Reader Unit := do
  let symbols ← reads ReaderState.symbols
  match symbols.leave with
  | some outer =>
    modify fun s => { s with symbols := outer }
    note (.scopeLeft symbols.current)
  | none => onStream (Stream.fatal (.broken .predefinedScopeLeft) .unknown)

/-- Reads something in a scope of its own. -/
def inScope {α : Type} (owner : Nat) (m : Nat → Reader α) : Reader α := do
  let scope ← enterScope owner
  let a ← m scope
  leaveScope
  return a

/-- Takes over the outcome of a declaration, or reports that the name is taken.
    Tells which entry was added. -/
def declared (what : Declared) (name : String) (l : Location)
    (outcome : Option (Entry × SymbolTable)) : Reader (Option Entry) :=
  match outcome with
  | some (entry, symbols) => do
    modify fun s => { s with symbols := symbols }
    return some entry
  | none => do
    report (.alreadyDeclared what name) l
    return none

end Reader

end PlZero
