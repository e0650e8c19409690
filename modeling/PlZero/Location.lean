/-
  PlZero/Location.lean
  ====================
  **Source positions.** A `Location` names a file, a line and a column, both
  counted from one.  Line zero stands for "no position": such a location orders
  before every other and draws no caret in a listing.
-/

namespace PlZero

/-- A position in a source text. -/
structure Location where
  file : String
  line : Int
  column : Int
  deriving DecidableEq, Repr, Inhabited

namespace Location

/-- The location of whatever has no place in a source text. -/
def unknown : Location := ⟨"<none>", 0, 0⟩

/-- A location is known when it names a line. -/
def isKnown (l : Location) : Bool := decide (0 < l.line)

/-- The written form `file:line:column`. -/
def text (l : Location) : String := s!"{l.file}:{l.line}:{l.column}"

theorem isKnown_unknown : unknown.isKnown = false := rfl

end Location

end PlZero
