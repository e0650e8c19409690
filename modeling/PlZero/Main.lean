/-
  PlZero/Main.lean
  ================
  **The command `pl0c`**: reads the arguments, the environment and the source file,
  and writes the answer.
-/
import PlZero.Command.Run

namespace PlZero.Command

/-- What is found at a path of the file system. -/
def entryAt (path : String) : IO FileEntry := do
  try
    return .file (← IO.FS.readBinFile path).toList
  catch
    | .noFileOrDirectory .. => return .missing
    | .inappropriateType .. => return .directory
    | e => throw e

/-- The settings in the environment. -/
def readSettings : IO Settings := do
  return ⟨← IO.getEnv "PL0_MAX_ERRORS", ← IO.getEnv "PL0_TRACE"⟩

/-- Tells the user of a usage error. -/
def refuse (e : UsageError) : IO UInt32 := do
  IO.eprintln ("Usage: pl0c [OPTIONS] INPUT_FILE\nTry 'pl0c --help' for help.\n\nError: " ++
    e.message)
  return 2

/-- Writes an answer. -/
def write (a : Answer) : IO UInt32 := do
  IO.print a.output
  IO.eprint a.errors
  return a.exitCode.toUInt32

end PlZero.Command

open PlZero.Command in
/-- Answers the command line. -/
def main (arguments : List String) : IO UInt32 := do
  match request arguments with
  | .error e => refuse e
  | .ok (.notice n) => write (answerNotice n)
  | .ok (.compile i) =>
    match answer depthOfHost i (← readSettings) (← entryAt i.path) with
    | .error e => refuse e
    | .ok (a, _) => write a
