/-
  PlZero/Journal.lean
  ===================
  **The record of a run.**  Everything that reading a program does in the open is an
  event: a diagnostic, a step of the rule trace, or a note for the log.  The rules
  of the grammar only ever add events; what is shown of them, and how many
  diagnostics are kept, is decided later, so it cannot influence the reading.

  A journal holds the latest event first.
-/
import PlZero.Diagnostic.Basic

namespace PlZero

/-- A step of the rule trace. -/
inductive Action
  | opened (rule : String)
  | closed (rule : String)
  | abandoned (rule : String)
  | matched (token : Token)
  | skipped (token : Token)
  | resynchronised (kind : Kind)
  deriving DecidableEq, Repr

/-- The wording of a trace step. -/
def Action.text : Action → String
  | opened rule => "Begin rule " ++ rule
  | closed rule => "End rule " ++ rule
  | abandoned rule => "Abandon rule " ++ rule
  | matched t => "Matched " ++ t.text
  | skipped t => "Skipping " ++ t.text
  | resynchronised k => "Resynchronised on " ++ k.spelling

/-- A remark for the log. -/
inductive Note
  | settingIgnored (value : String)
  | compiling (file : String)
  | lexed (tokens : Nat)
  | parsing
  | scopeEntered (scope : Nat) (procedure : String)
  | scopeLeft (scope : Nat)
  | parsed (errors : Nat)
  | fatal (location : Location) (message : String)
  | finished (file : String) (summary : String)
  deriving DecidableEq, Repr

/-- A remark as a line of the log, after the name of the part that makes it. -/
def Note.text : Note → String
  | settingIgnored value =>
    "pl0_sdk.pl0.compiler: Ignoring invalid PL0_MAX_ERRORS=" ++ Text.quoted value
  | compiling file => "pl0_sdk.pl0.compiler: Compiling " ++ file
  | lexed tokens => s!"pl0_sdk.pl0.compiler: Lexed {tokens} tokens"
  | parsing => "pl0_sdk.pl0.parser: Parsing program"
  | scopeEntered scope procedure =>
    s!"pl0_sdk.pl0.symbols: Entered scope {scope} of procedure {procedure}"
  | scopeLeft scope => s!"pl0_sdk.pl0.symbols: Left scope {scope}"
  | parsed errors => s!"pl0_sdk.pl0.parser: Parse finished with {errors} error(s)"
  | fatal location message =>
    s!"pl0_sdk.pl0.diagnostics: Fatal error at {location.text}: {message}"
  | finished file summary => s!"pl0_sdk.pl0.compiler: {file}: {summary}"

/-- Something that happened while a program was read. -/
inductive Event
  | report (d : Diagnostic)
  | trace (depth : Nat) (action : Action)
  | note (n : Note)
  deriving DecidableEq, Repr

/-- The events of a run, latest first. -/
abbrev Journal := List Event

namespace Journal

/-- The diagnostic that an event reports. -/
def diagnostic? : Event → Option Diagnostic
  | .report d => some d
  | _ => none

/-- The remark that an event makes. -/
def note? : Event → Option Note
  | .note n => some n
  | _ => none

/-- The diagnostics of a run, in the order in which they were reported. -/
def diagnostics (j : Journal) : List Diagnostic := j.reverse.filterMap diagnostic?

/-- The remarks of a run, in the order in which they were made. -/
def notes (j : Journal) : List Note := j.reverse.filterMap note?

/-- The number of diagnostics reported. -/
def reportCount (j : Journal) : Nat := j.countP fun e => (diagnostic? e).isSome

end Journal

end PlZero
