/-
  PlZero/Failure.lean
  ===================
  **What ends a run without a result.**  Ordinary mistakes in a program never do:
  they are collected as diagnostics.  A failure is a fault of a source that is
  read without a collector, an internal check that does not hold, a source that
  cannot be read, a tree that holds a node of no known kind, or a scope asked for that
  the symbol table does not have.

  A failure with a place and a source line is shown over several lines:

      prog.pl0:3:9: error: illegal character '$'
              x := $1
                   ^
      hint: remove it
-/
import PlZero.Diagnostic.Basic
import PlZero.Text.Utf8

namespace PlZero

/-- The part of a tree in which a node of another part was met. -/
inductive NodeCategory
  | constant
  | expression
  | statement
  deriving DecidableEq, Repr

/-- How a message calls a part of a tree. -/
def NodeCategory.title : NodeCategory → String
  | constant => "constant"
  | expression => "expression"
  | statement => "statement"

/-- A node that does not belong where it stands. -/
structure UnknownNode where
  category : NodeCategory
  nodeName : String
  deriving DecidableEq, Repr

/-- The wording for a node that does not belong where it stands. -/
def UnknownNode.message (u : UnknownNode) : String :=
  s!"unknown {u.category.title} node: {u.nodeName}"

/-- Why a run ended without a result. -/
inductive Failure
  | compilation (message : String) (location : Option Location) (hint sourceLine : Option String)
  | invalidCharacter (c : Char) (location : Option Location) (sourceLine : Option String)
  | fatal (message : String) (location : Option Location) (report : String)
  | programTooDeep
  | longDigitRun (digits : Nat)
  | unknownNode (node : UnknownNode)
  | missingScope (scope : Nat)
  | sourceNotFound (path : String)
  | sourceIsDirectory (path : String)
  | undecodable (fault : Text.Utf8Fault)
  | unreadable (message : String)
  | other (message : String)
  deriving DecidableEq, Repr

namespace Failure

/-- A code point in upper-case hexadecimal with at least two digits. -/
def codePointText (c : Char) : String :=
  let ds := (Nat.toDigits 16 c.toNat).map Char.toUpper
  "0x" ++ String.ofList (List.replicate (2 - ds.length) '0' ++ ds)

/-- The line that names a failure and its place, if the place is known. -/
def heading (message : String) (location : Option Location) : String :=
  match location with
  | some l => if l.isKnown then s!"{l.text}: error: {message}" else s!"error: {message}"
  | none => s!"error: {message}"

/-- The source line under a failure, with a caret below its column. -/
def excerpt (location : Option Location) (sourceLine : Option String) : List String :=
  match sourceLine, location with
  | some line, some l =>
    let shown := "    " ++ line
    if 0 < l.column then
      [shown, String.ofList (List.replicate (3 + l.column).toNat ' ') ++ "^"]
    else [shown]
  | _, _ => []

/-- The line of a hint, unless it is missing or empty. -/
def hintLine : Option String → List String
  | some hint => if hint.isEmpty then [] else ["hint: " ++ hint]
  | none => []

/-- A failure over several lines: its heading, the source line, and a hint. -/
def laidOut (message : String) (location : Option Location) (hint sourceLine : Option String) :
    String :=
  "\n".intercalate (heading message location :: excerpt location sourceLine ++ hintLine hint)

/-- The bare wording of a failure. -/
def message : Failure → String
  | compilation message _ _ _ => message
  | invalidCharacter c _ _ => s!"illegal character '{c}' ({codePointText c})"
  | fatal message _ _ => message
  | programTooDeep => Problem.programTooDeep.message
  | longDigitRun digits =>
    "Exceeds the limit (4300 digits) for integer string conversion: value has " ++
      s!"{digits} digits; use sys.set_int_max_str_digits() to increase the limit"
  | unknownNode node => node.message
  | missingScope _ => "list index out of range"
  | sourceNotFound path => "Source file not found: " ++ path
  | sourceIsDirectory path => "[Errno 21] Is a directory: " ++ Text.quoted path
  | undecodable fault => fault.message
  | unreadable message => message
  | other message => message

/-- The place of a failure, if it has one. -/
def location : Failure → Option Location
  | compilation _ l _ _ => l
  | invalidCharacter _ l _ => l
  | fatal _ l _ => l
  | _ => none

/-- A failure as it is shown: laid out with its place where it is one of the
    compiler's own, and its bare wording otherwise. -/
def text : Failure → String
  | compilation message l hint sourceLine => laidOut message l hint sourceLine
  | invalidCharacter c l sourceLine =>
    laidOut (invalidCharacter c l sourceLine).message l none sourceLine
  | fatal message l _ => laidOut message l none none
  | failure => failure.message

end Failure

/-! ### Folding -/

/-- Why a constant cannot be folded: a node that is no constant, or a name in a scope
    that the symbol table does not have. -/
inductive Unfoldable
  | unknownNode (node : UnknownNode)
  | missingScope (scope : Nat)
  deriving DecidableEq, Repr

/-- The failure that folding such a constant ends in. -/
def Unfoldable.failure : Unfoldable → Failure
  | unknownNode node => .unknownNode node
  | missingScope scope => .missingScope scope

end PlZero
