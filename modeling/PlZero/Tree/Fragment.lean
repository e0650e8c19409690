/-
  PlZero/Tree/Fragment.lean
  =========================
  **Loose constants and types.**  A fragment is what may be handed in where a
  constant or a type belongs: a constant, a type, or a thing of some other kind,
  each in the place of any other.  Fragments are to constants and types what loose
  nodes are to statements and expressions: nothing in them is checked.
-/
import PlZero.Location

namespace PlZero

/-- A constant, a type, or a thing of another kind, of which the name of the kind and
    the written form are known. -/
inductive Fragment
  | number (location : Location) (scope : Nat) (value : Int)
  | named (location : Location) (scope : Nat) (name : String)
  | negated (location : Location) (scope : Nat) (operand : Fragment)
  | constantError (location : Location) (scope : Nat)
  | scalar (name : String)
  | subrange (lower upper : Fragment)
  | typeNamed (name : String) (scope : Nat) (location : Location)
  | reference (base : Fragment)
  | typeError
  | other (nodeName written : String)
  deriving DecidableEq, Repr, Inhabited

namespace Fragment

/-- The name of a fragment's kind. -/
def kindName : Fragment → String
  | number _ _ _ => "ConstNumber"
  | named _ _ _ => "ConstIdentifier"
  | negated _ _ _ => "ConstNegate"
  | constantError _ _ => "ConstError"
  | scalar _ => "ScalarType"
  | subrange _ _ => "SubrangeType"
  | typeNamed _ _ _ => "TypeReference"
  | reference _ => "ReferenceType"
  | typeError => "ErrorType"
  | other nodeName _ => nodeName

/-- The written form of a fragment. -/
def text : Fragment → String
  | number _ _ value => toString value
  | named _ _ name => name
  | negated _ _ operand => "-" ++ operand.text
  | constantError _ _ => "<error>"
  | scalar name => name
  | subrange lower upper => "[" ++ lower.text ++ ".." ++ upper.text ++ "]"
  | typeNamed name _ _ => name
  | reference base => "ref(" ++ base.text ++ ")"
  | typeError => "<error>"
  | other _ written => written

end Fragment

end PlZero
