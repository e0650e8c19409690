/-
  PlZero/Tree/Constant.lean
  =========================
  **Constants and types as they are written.**  Neither is resolved while a program
  is read: a name keeps the number of the scope in which it appeared.

  `Constant.foreign` and `TypeExpr.foreign` stand for something else in the place of
  a constant or a type.  The grammar never builds one; whoever hands a tree in may.
  A fragment that is handed in loses nothing: `toFragment` gives it back.
-/
import PlZero.Tree.Fragment

namespace PlZero

/-! ### Constants -/

/-- A constant expression. -/
inductive Constant
  | number (location : Location) (scope : Nat) (value : Int)
  | named (location : Location) (scope : Nat) (name : String)
  | negated (location : Location) (scope : Nat) (operand : Constant)
  | error (location : Location) (scope : Nat)
  | foreign (fragment : Fragment)
  deriving DecidableEq, Repr, Inhabited

namespace Constant

/-- The written form of a constant. -/
def text : Constant → String
  | number _ _ value => toString value
  | named _ _ name => name
  | negated _ _ operand => "-" ++ operand.text
  | error _ _ => "<error>"
  | foreign fragment => fragment.text

/-- A fragment in the place of a constant. -/
def ofFragment : Fragment → Constant
  | .number location scope value => number location scope value
  | .named location scope name => named location scope name
  | .negated location scope operand => negated location scope (ofFragment operand)
  | .constantError location scope => error location scope
  | fragment => foreign fragment

/-- The fragment that a constant is. -/
def toFragment : Constant → Fragment
  | number location scope value => .number location scope value
  | named location scope name => .named location scope name
  | negated location scope operand => .negated location scope operand.toFragment
  | error location scope => .constantError location scope
  | foreign fragment => fragment

/-- A constant is the fragment it was made of. -/
theorem toFragment_ofFragment (f : Fragment) : (ofFragment f).toFragment = f := by
  induction f <;> simp_all [ofFragment, toFragment]

/-- A constant and its fragment have the same written form. -/
theorem text_toFragment (c : Constant) : c.toFragment.text = c.text := by
  induction c <;> simp_all [toFragment, text, Fragment.text]

end Constant

/-! ### Types -/

/-- A type expression. -/
inductive TypeExpr
  | scalar (name : String)
  | subrange (lower upper : Constant)
  | named (name : String) (scope : Nat) (location : Location)
  | reference (base : TypeExpr)
  | error
  | foreign (fragment : Fragment)
  deriving DecidableEq, Repr, Inhabited

namespace TypeExpr

/-- The written form of a type. -/
def text : TypeExpr → String
  | scalar name => name
  | subrange lower upper => "[" ++ lower.text ++ ".." ++ upper.text ++ "]"
  | named name _ _ => name
  | reference base => "ref(" ++ base.text ++ ")"
  | error => "<error>"
  | foreign fragment => fragment.text

/-- A fragment in the place of a type. -/
def ofFragment : Fragment → TypeExpr
  | .scalar name => scalar name
  | .subrange lower upper => subrange (.ofFragment lower) (.ofFragment upper)
  | .typeNamed name scope location => named name scope location
  | .reference base => reference (ofFragment base)
  | .typeError => error
  | fragment => foreign fragment

/-- The fragment that a type is. -/
def toFragment : TypeExpr → Fragment
  | scalar name => .scalar name
  | subrange lower upper => .subrange lower.toFragment upper.toFragment
  | named name scope location => .typeNamed name scope location
  | reference base => .reference base.toFragment
  | error => .typeError
  | foreign fragment => fragment

/-- A type is the fragment it was made of. -/
theorem toFragment_ofFragment (f : Fragment) : (ofFragment f).toFragment = f := by
  induction f <;> simp_all [ofFragment, toFragment, Constant.toFragment_ofFragment]

/-- A type and its fragment have the same written form. -/
theorem text_toFragment (t : TypeExpr) : t.toFragment.text = t.text := by
  induction t <;> simp_all [toFragment, text, Fragment.text, Constant.text_toFragment]

end TypeExpr

end PlZero
