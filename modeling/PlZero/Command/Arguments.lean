/-
  PlZero/Command/Arguments.lean
  =============================
  **The arguments of `pl0c`.**  Options and the path of the source stand in any order;
  two dashes alone end the options.  Asking for the version or for help takes effect
  as soon as every option is well formed, whatever else is wrong.
-/
import PlZero.Text.Numeral

namespace PlZero.Command

/-- What is wrong with the arguments. -/
inductive UsageError
  | noSuchOption (option : String)
  | valueMissing (option : String)
  | valueUnexpected (option : String)
  | sourceMissing
  | argumentUnexpected (argument : String)
  | notAnInteger (value : String)
  | notPositive (value : Int)
  | noSuchFile (path : String)
  | isDirectory (path : String)
  deriving DecidableEq, Repr

/-- The wording of a usage error. -/
def UsageError.message : UsageError → String
  | noSuchOption option => "No such option: " ++ option
  | valueMissing option => "Option '" ++ option ++ "' requires an argument."
  | valueUnexpected option => "Option '" ++ option ++ "' does not take a value."
  | sourceMissing => "Missing argument 'INPUT_FILE'."
  | argumentUnexpected argument => "Got unexpected extra argument (" ++ argument ++ ")"
  | notAnInteger value =>
    "Invalid value for '--max-errors': '" ++ value ++ "' is not a valid integer range."
  | notPositive value =>
    s!"Invalid value for '--max-errors': {value} is not in the range x>=1."
  | noSuchFile path =>
    "Invalid value for 'INPUT_FILE': File '" ++ path ++ "' does not exist."
  | isDirectory path =>
    "Invalid value for 'INPUT_FILE': File '" ++ path ++ "' is a directory."

/-- What may be asked for instead of a compilation. -/
inductive Notice
  | version
  | help
  deriving DecidableEq, Repr

/-- The arguments as they are written. -/
structure Written where
  notice : Option Notice := none
  trace : Bool := false
  tree : Bool := false
  verbose : Bool := false
  maxErrors : Option String := none
  operands : List String := []
  deriving DecidableEq, Repr

/-- A request for a compilation. -/
structure Invocation where
  path : String
  trace : Bool
  tree : Bool
  verbose : Bool
  maxErrors : Option Int
  deriving DecidableEq, Repr

/-- What the arguments ask for. -/
inductive Request
  | notice (n : Notice)
  | compile (i : Invocation)
  deriving DecidableEq, Repr

namespace Written

/-- Sets the flag of a long name, if there is one. -/
def flag? (w : Written) : String → Option Written
  | "--trace" => some { w with trace := true }
  | "--tree" => some { w with tree := true }
  | "--verbose" => some { w with verbose := true }
  | "--version" => some { w with notice := w.notice.or (some .version) }
  | "--help" => some { w with notice := w.notice.or (some .help) }
  | _ => none

/-- Sets the flags of a cluster of short names. -/
def short (w : Written) : List Char → Except UsageError Written
  | [] => .ok w
  | 'v' :: rest => short { w with verbose := true } rest
  | c :: _ => .error (.noSuchOption ("-" ++ String.singleton c))

/-- The option name before the first equals sign, and the value behind it. -/
def splitValue (argument : String) : String × Option String :=
  let cs := argument.toList
  match cs.dropWhile fun c => c != '=' with
  | [] => (argument, none)
  | _ :: value => (String.ofList (cs.takeWhile fun c => c != '='), some (String.ofList value))

/-- Reads arguments one by one. -/
def read (w : Written) : List String → Except UsageError Written
  | [] => .ok w
  | argument :: rest =>
    match argument.toList with
    | ['-', '-'] => .ok { w with operands := w.operands ++ rest }
    | '-' :: '-' :: _ =>
      match splitValue argument with
      | ("--max-errors", some value) => read { w with maxErrors := some value } rest
      | ("--max-errors", none) =>
        match rest with
        | [] => .error (.valueMissing "--max-errors")
        | value :: rest' => read { w with maxErrors := some value } rest'
      | (option, value) =>
        match w.flag? option, value with
        | some w', none => read w' rest
        | some _, some _ => .error (.valueUnexpected option)
        | none, _ => .error (.noSuchOption option)
    | '-' :: c :: cs =>
      match w.short (c :: cs) with
      | .ok w' => read w' rest
      | .error e => .error e
    | _ => read { w with operands := w.operands ++ [argument] } rest

/-- The number of diagnostics to list, which has to be positive. -/
def cap? : Option String → Except UsageError (Option Int)
  | none => .ok none
  | some value =>
    match Text.integer? value with
    | none => .error (.notAnInteger value)
    | some n => if n < 1 then .error (.notPositive n) else .ok (some n)

/-- What well-formed arguments ask for. -/
def request (w : Written) : Except UsageError Request :=
  match w.notice with
  | some n => .ok (.notice n)
  | none =>
    match w.operands, cap? w.maxErrors with
    | _, .error e => .error e
    | [], _ => .error .sourceMissing
    | _ :: extra :: _, _ => .error (.argumentUnexpected extra)
    | [path], .ok cap => .ok (.compile ⟨path, w.trace, w.tree, w.verbose, cap⟩)

end Written

/-- What the arguments ask for. -/
def request (arguments : List String) : Except UsageError Request := do
  (← Written.read {} arguments).request

end PlZero.Command
