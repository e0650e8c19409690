/-
  PlZero/Token/Basic.lean
  =======================
  **Tokens**: a kind, the place where the token starts, and a payload, which is
  the name of an identifier, the value of a number, or the offending character of
  an illegal token.
-/
import PlZero.Location
import PlZero.Text.Quoted
import PlZero.Token.KindSet

namespace PlZero

/-- What a token carries besides its kind. -/
inductive Payload
  | absent
  | text (s : String)
  | number (n : Int)
  deriving DecidableEq, Repr, Inhabited

namespace Payload

/-- A payload as it stands in a message. -/
def shown : Payload → String
  | absent => "None"
  | text s => s
  | number n => toString n

/-- The name that a payload holds; empty for a payload that is no text. -/
def name : Payload → String
  | text s => s
  | _ => ""

/-- The value that a payload holds; zero for a payload that is no number. -/
def value : Payload → Int
  | number n => n
  | _ => 0

end Payload

/-- A lexical token. -/
structure Token where
  kind : Kind
  location : Location
  payload : Payload
  deriving DecidableEq, Repr, Inhabited

namespace Token

/-- The token that ends the input. -/
def endOfFile (location : Location) : Token := ⟨.endOfFile, location, .absent⟩

/-- A token as it stands in a message. -/
def text (t : Token) : String :=
  match t.kind with
  | .identifier => "identifier " ++ t.payload.shown
  | .number => "number " ++ t.payload.shown
  | k => k.spelling

/-- A token with its position, for a reader of the token sequence. -/
def debugText (t : Token) : String :=
  let place := s!"{t.location.line}:{t.location.column}"
  match t.payload with
  | .absent => s!"Token({t.kind.name}, {place})"
  | .number n => s!"Token({t.kind.name}, {n}, {place})"
  | .text s => s!"Token({t.kind.name}, {Text.quoted s}, {place})"

end Token

end PlZero
