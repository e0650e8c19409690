/-
  PlZero/Diagnostic/Collector.lean
  ================================
  **Collecting diagnostics.**  A collector counts every diagnostic and keeps the
  first ones, up to a cap, for the next listing.  Writing a listing lets go of what
  it listed; the count goes on.  A fatal diagnostic writes the listing and the
  summary at once.
-/
import PlZero.Diagnostic.Listing
import PlZero.Failure
import PlZero.Journal

namespace PlZero

/-- A piece of output. -/
inductive Written
  | listing (ds : List Diagnostic)
  | summary (count : Nat)
  | line (text : String)
  deriving DecidableEq, Repr

/-- Diagnostics on their way to the user. -/
structure Collector where
  /-- The display lines of the source, for the listing. -/
  source : Array String := #[]
  /-- How many diagnostics are kept. -/
  cap : Int := 100
  /-- Whether trace lines are written. -/
  tracing : Bool := false
  /-- The diagnostics kept for the next listing, in the order of arrival. -/
  retained : Array Diagnostic := #[]
  /-- How many diagnostics were reported in all. -/
  count : Nat := 0
  /-- The output so far, latest piece first. -/
  written : List Written := []
  deriving Inhabited

namespace Collector

/-- The default number of diagnostics kept. -/
def defaultCap : Int := 100

/-- The text of a piece of output. -/
def textOf (source : Array String) : Written → String
  | .listing ds => Listing.render source ds ++ "\n"
  | .summary count => Listing.summary count ++ "\n"
  | .line text => text ++ "\n"

/-- The text written so far. -/
def output (c : Collector) : String := String.join (c.written.reverse.map (textOf c.source))

/-- The same collector with an empty output. -/
def withoutOutput (c : Collector) : Collector := { c with written := [] }

/-- Counts a diagnostic, and keeps it if the count is below the cap. -/
def record (c : Collector) (d : Diagnostic) : Collector :=
  { c with
    retained := if (c.count : Int) < c.cap then c.retained.push d else c.retained
    count := c.count + 1 }

/-- The listing of what is kept. -/
def render (c : Collector) : String := Listing.render c.source c.retained.toList

/-- The sentence that counts every diagnostic. -/
def summary (c : Collector) : String := Listing.summary c.count

/-- Whether anything was reported. -/
def hadErrors (c : Collector) : Bool := decide (0 < c.count)

/-- Writes a line. -/
def writeLine (c : Collector) (text : String) : Collector :=
  { c with written := .line text :: c.written }

/-- Writes the listing, if anything is kept, and lets go of what it listed. -/
def flush (c : Collector) : Collector :=
  { c with
    written := if c.retained.isEmpty then c.written
      else .listing c.retained.toList :: c.written
    retained := #[] }

/-- Writes the summary. -/
def writeSummary (c : Collector) : Collector :=
  { c with written := .summary c.count :: c.written }

/-- Records an ordinary error. -/
def error (c : Collector) (p : Problem) (l : Location) : Collector := c.record ⟨.error, p, l⟩

/-- Records a fatal error, writes the listing and the summary, and tells what the
    run fails with. -/
def fatal (c : Collector) (p : Problem) (l : Location) : Collector × Failure :=
  let recorded := c.record ⟨.fatal, p, l⟩
  (recorded.flush.writeSummary, .fatal p.message (some l) recorded.render)

/-- Writes a trace line at a depth, if trace lines are wanted. -/
def trace (c : Collector) (depth : Int) (text : String) : Collector :=
  if c.tracing then c.writeLine (Listing.spaces depth ++ text) else c

/-- Records a fatal error unless a condition holds. -/
def check (c : Collector) (condition : Bool) (a : Assertion) (l : Location) :
    Collector × Option Failure :=
  if condition then (c, none)
  else
    let (c, failure) := c.fatal (.broken a) l
    (c, some failure)

/-! ### Events -/

/-- Takes in an event of a run, and tells what a fatal diagnostic makes the run fail
    with. -/
def absorb (c : Collector) : Event → Collector × Option Failure
  | .report ⟨.error, p, l⟩ => (c.error p l, none)
  | .report ⟨.fatal, p, l⟩ =>
    let (c, failure) := c.fatal p l
    (c, some failure)
  | .trace depth action => (c.trace depth action.text, none)
  | .note _ => (c, none)

/-- Takes in the events of a run, and tells what its last fatal diagnostic makes it
    fail with. -/
def absorbAll (c : Collector) (j : Journal) : Collector × Option Failure :=
  j.foldr
    (fun e (c, before) =>
      let (c, failure) := c.absorb e
      (c, failure.or before))
    (c, none)

end Collector

end PlZero
