/-
  PlZero/Diagnostic/Listing.lean
  ==============================
  **The listing**: diagnostics in the order of their places, each under the source
  line that it belongs to.  Diagnostics at one place keep the order in which they
  arrived, and consecutive diagnostics of one line share its text:

           3 begin x := end
      ******            ^ Error: Condition cannot start with end
      ****** Error: something without a position
-/
import PlZero.Diagnostic.Basic
import PlZero.Text.Lines

namespace PlZero.Listing

/-- The width of the line number column. -/
def numberWidth : Nat := 6

/-- A text moved to the right end of a column. -/
def alignRight (width : Nat) (text : String) : String :=
  String.ofList (List.replicate (width - text.length) ' ') ++ text

/-- The mark that stands in the line number column before a diagnostic. -/
def mark : String := String.ofList (List.replicate numberWidth '*')

/-- As many spaces as the number says; none if it is negative. -/
def spaces (n : Int) : String := String.ofList (List.replicate n.toNat ' ')

/-- The text of a source line, which is empty beyond the end of the source. -/
def contextLine (source : Array String) (line : Int) : String :=
  if 0 < line then
    match source[(line - 1).toNat]? with
    | some text => Text.dropLineEnd text
    | none => ""
  else ""

/-- The line that opens the diagnostics of one source line. -/
def header (source : Array String) (line : Int) : String :=
  alignRight numberWidth (toString line) ++ " " ++ contextLine source line

/-- The line of one diagnostic. -/
def entry (d : Diagnostic) : String :=
  if d.location.isKnown then mark ++ " " ++ spaces (d.location.column - 1) ++ "^ " ++ d.text
  else mark ++ " " ++ d.text

/-- The diagnostics in the order of the listing. -/
def sorted (ds : List Diagnostic) : List Diagnostic := ds.mergeSort Diagnostic.precedes

/-- The lines of a sorted listing.  `shown` is the source line shown last. -/
def linesFrom (source : Array String) (shown : Option Int) : List Diagnostic → List String
  | [] => []
  | d :: rest =>
    if d.location.isKnown then
      if shown = some d.location.line then entry d :: linesFrom source shown rest
      else header source d.location.line :: entry d ::
        linesFrom source (some d.location.line) rest
    else entry d :: linesFrom source shown rest

/-- The listing of some diagnostics, without a line end after its last line. -/
def render (source : Array String) (ds : List Diagnostic) : String :=
  "\n".intercalate (linesFrom source none (sorted ds))

/-- The sentence that counts the diagnostics. -/
def summary (count : Nat) : String :=
  if count = 0 then "No errors detected."
  else if count = 1 then "1 error detected."
  else s!"{count} errors detected."

end PlZero.Listing
