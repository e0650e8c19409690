/-
  PlZero/Compilation.lean
  =======================
  **From a source to its diagnostics.**  There are two ways.  `parseSource` scans as
  it reads and leaves the diagnostics with a collector.  `compileSource` scans the
  whole source first, and then writes the trace, the outline of the tree, the
  listing and the summary.

  The options of `compileSource` decide what is written.  They do not reach the
  reader: it fills a journal, and the output is made of that.  Both ways are told how
  deep procedures and statements may nest (`maxDepth`), for the reader; nothing bounds
  the recursion that writes the outline.
-/
import PlZero.Grammar.Blocks
import PlZero.Stream.Session
import PlZero.Tree.Outline

namespace PlZero

/-- What is written about a source: how many diagnostics are listed, and whether the
    trace and the outline of the tree are written as well. -/
structure Options where
  maxErrors : Int := Collector.defaultCap
  trace : Bool := false
  printTree : Bool := false
  deriving DecidableEq, Repr, Inhabited

/-- The outcome of reading a source to its end. -/
structure Compiled where
  file : String
  program : Program
  symbols : SymbolTable
  errorCount : Nat
  success : Bool
  tokenCount : Nat
  diagnostics : List Diagnostic

/-- A run: what it wrote, the remarks for the log, and its outcome. -/
structure Run where
  output : String
  notes : List Note
  outcome : Except Failure Compiled

namespace Compilation

/-- A collector for a source. -/
def collectorFor (source : String) (options : Options) : Collector :=
  { source := (Text.lines source).toArray, cap := options.maxErrors, tracing := options.trace }

/-- Scans and reads a source at the same time. -/
def parseSource (maxDepth : Nat) (source file : String) :
    Except Failure (Grammar.Parsed × Collector) :=
  let collector := collectorFor source {}
  match Grammar.parse maxDepth (scan source.toList file) [] with
  | .ok parsed => .ok (parsed, (collector.absorbAll parsed.journal).1)
  | .error (a, journal) => .error (a.failure (collector.absorbAll journal).2)

/-- The outline of a program with the names that its blocks declare. -/
def outline (p : Program) (t : SymbolTable) : Except UnknownNode String :=
  p.toNode.outline t.describeScope

/-- The tokens so far, latest first, and the events so far, with those of one more scan. -/
def taken : List Token × Journal → Scan → List Token × Journal
  | (ts, j), .token t fault => (t :: ts, Stream.reported t fault j)
  | (ts, j), .overlong _ => (ts, j)

/-- The tokens of scans, and the events that scanning them is. -/
def tokensOf (scans : List Scan) (journal : Journal) : List Token × Journal :=
  let (tokens, journal) := scans.foldl taken ([], journal)
  (tokens.reverse, journal)

/-- The length of the digit run that was too long to read, if there was one. -/
def overlong? (scans : List Scan) : Option Nat :=
  scans.findSome? fun
    | .overlong n => some n
    | .token _ _ => none

/-- Writes what a program that was read to its end gives rise to. -/
def conclude (options : Options) (file : String) (tokenCount : Nat) (collector : Collector)
    (parsed : Grammar.Parsed) : Run :=
  let read := (collector.absorbAll parsed.journal).1
  let shown :=
    if options.printTree then (outline parsed.program parsed.symbols).map read.writeLine
    else .ok read
  match shown with
  | .error node =>
    ⟨read.output, parsed.journal.notes, .error (.unknownNode node)⟩
  | .ok shown =>
    { output := shown.flush.writeSummary.output
      notes := parsed.journal.notes ++ [.finished file shown.summary]
      outcome := .ok {
        file := file
        program := parsed.program
        symbols := parsed.symbols
        errorCount := shown.count
        success := !shown.hadErrors
        tokenCount := tokenCount
        diagnostics := shown.retained.toList } }

/-- Scans a source, reads it, and writes what there is to say about it. -/
def compileSource (maxDepth : Nat) (options : Options) (source file : String) : Run :=
  let collector := collectorFor source options
  let scans := scan source.toList file
  let (tokens, scanned) := tokensOf scans [.note (.compiling file)]
  match overlong? scans with
  | some digits => ⟨"", Journal.notes scanned, .error (.longDigitRun digits)⟩
  | none =>
    let before : Journal := .note (.lexed tokens.length) :: scanned
    match Grammar.parse maxDepth (tokens.map fun t => .token t none) before with
    | .ok parsed => conclude options file tokens.length collector parsed
    | .error (a, journal) =>
      let (written, fatal) := collector.absorbAll journal
      ⟨written.output, journal.notes, .error (a.failure fatal)⟩

end Compilation

end PlZero
