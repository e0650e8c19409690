/-
  PlZero/Command/Run.lean
  =======================
  **What `pl0c` answers**: an exit code and the texts for the two output channels.

  The exit code is 0 for a program without errors, 1 for one with errors, 2 for
  arguments or files that cannot be used, and 3 where the compiler gave up.  The
  messages of the command itself hold no control sequences for a terminal; the
  listing and the log show a source as it is.
-/
import PlZero.Command.Arguments
import PlZero.Command.Settings
import PlZero.SourceFile
import PlZero.Text.ControlSequence

namespace PlZero

namespace Failure

/-- The exit code for a failure. -/
def exitCode : Failure → Nat
  | compilation _ _ _ _ | invalidCharacter _ _ _ => 1
  | sourceNotFound _ | undecodable _ | unreadable _ => 2
  | fatal _ _ _ | programTooDeep | longDigitRun _ | unknownNode _ | missingScope _
  | sourceIsDirectory _ | other _ => 3

/-- The line that tells the user of a failure. -/
def complaint (f : Failure) : String :=
  match f with
  | compilation _ _ _ _ | invalidCharacter _ _ _ => f.text
  | sourceNotFound _ | undecodable _ | unreadable _ => "Error: " ++ f.message
  | fatal _ _ _ | programTooDeep => "Fatal error: " ++ f.message
  | longDigitRun _ | unknownNode _ | missingScope _ | sourceIsDirectory _ | other _ =>
    "Internal error: " ++ f.message

end Failure

namespace Command

/-- The answer to a command. -/
structure Answer where
  exitCode : Nat
  output : String
  errors : String
  deriving DecidableEq, Repr

/-- A message of the command as it is written to an output channel. -/
def messageLine (message : String) : String := Text.withoutControlSequences (message ++ "\n")

/-- The answer to a failure. -/
def answerTo (f : Failure) : Answer := ⟨f.exitCode, "", messageLine f.complaint⟩

/-- The answer to a question about the version. -/
def versionText : String := "pl0c, version 1.0.0\n"

/-- The answer to a question about the usage. -/
def helpText : String := "\n".intercalate [
  "Usage: pl0c [OPTIONS] INPUT_FILE",
  "",
  "  Parse a PL/0 program and report its errors.",
  "",
  "  INPUT_FILE is the PL/0 source file (.pl0) to check.",
  "",
  "  Errors are listed in source order under the offending line, followed by a",
  "  count. The exit status is 0 for a clean program, 1 when errors were found",
  "  and 3 on an internal compiler error.",
  "",
  "  Examples:",
  "      pl0c prog.pl0                # List errors",
  "      pl0c prog.pl0 --tree         # Also print the parse tree",
  "      pl0c prog.pl0 --trace        # Trace the parser's recovery",
  "      pl0c prog.pl0 --max-errors 5 # List at most five errors",
  "",
  "Options:",
  "  --trace                     Trace rule entry/exit, token matches and skipped",
  "                              tokens",
  "  --tree                      Print the parse tree and the declarations of",
  "                              each block",
  "  --max-errors INTEGER RANGE  Number of diagnostics to list (default: 100);",
  "                              all are counted  [x>=1]",
  "  -v, --verbose               Verbose output",
  "  --version                   Show the version and exit.",
  "  --help                      Show this message and exit.",
  ""]

/-- The answer to a notice. -/
def answerNotice : Notice → Answer
  | .version => ⟨0, versionText, ""⟩
  | .help => ⟨0, helpText, ""⟩

/-- The options of an invocation: what its arguments say, and otherwise what the
    environment says. -/
def effectiveOptions (i : Invocation) (defaults : Options) : Options :=
  { maxErrors := i.maxErrors.getD defaults.maxErrors
    trace := i.trace || defaults.trace
    printTree := i.tree || defaults.printTree }

/-- The log of a run, which is shown on request. -/
def logText (verbose : Bool) (notes : List Note) : String :=
  if verbose then String.join (notes.map fun n => n.text ++ "\n") else ""

/-- How deep procedures and statements may nest where `pl0c` is run. -/
def depthOfHost : Nat := 1000

/-- Compiles what is found at the path of an invocation. -/
def answerRun (maxDepth : Nat) (i : Invocation) (settings : Settings) (entry : FileEntry) :
    Answer × Run :=
  let path := SourceFile.normalPath i.path
  let (defaults, remarks) := settings.options
  let run := SourceFile.compile maxDepth (effectiveOptions i defaults) path entry
  let opening := if i.verbose then messageLine ("Parsing " ++ path ++ "...") else ""
  let log := logText i.verbose (remarks ++ run.notes)
  match run.outcome with
  | .ok compiled =>
    let closing := if i.verbose then messageLine s!"Tokenized: {compiled.tokenCount} tokens" else ""
    (⟨if compiled.success then 0 else 1, opening ++ run.output ++ closing, log⟩, run)
  | .error f =>
    (⟨f.exitCode, opening ++ run.output, log ++ messageLine f.complaint⟩, run)

/-- The answer to an invocation, given what is found at its path. -/
def answer (maxDepth : Nat) (i : Invocation) (settings : Settings) (entry : FileEntry) :
    Except UsageError (Answer × Run) :=
  match entry with
  | .missing => .error (.noSuchFile i.path)
  | .directory => .error (.isDirectory i.path)
  | entry => .ok (answerRun maxDepth i settings entry)

end Command

end PlZero
