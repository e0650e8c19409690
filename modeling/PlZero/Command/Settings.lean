/-
  PlZero/Command/Settings.lean
  ============================
  **Defaults from the environment.**  `PL0_MAX_ERRORS` says how many diagnostics are
  listed and `PL0_TRACE` whether the trace is written.  A setting that is empty
  counts as missing, and a number that is no positive whole number is ignored.
-/
import PlZero.Compilation
import PlZero.Text.Numeral

namespace PlZero.Command

/-- The settings in the environment. -/
structure Settings where
  maxErrors : Option String := none
  trace : Option String := none
  deriving DecidableEq, Repr, Inhabited

namespace Settings

/-- The words that switch the trace on. -/
def affirmative : List String := ["1", "true", "yes", "on"]

/-- Whether a setting switches something on; case and margins do not count. -/
def isAffirmative (value : String) : Bool :=
  affirmative.contains
    (String.ofList ((Text.trimmed Text.isSpace value.toList).map Char.toLower))

/-- A setting that is not empty. -/
def given? (value : Option String) : Option String := value.filter fun v => !v.isEmpty

/-- The positive number that a setting writes. -/
def positive? (value : String) : Option Int :=
  (Text.integer? value).filter fun n => decide (0 < n)

/-- The options that the environment sets, and the remarks about it. -/
def options (s : Settings) : Options × List Note :=
  let trace := (given? s.trace).elim false isAffirmative
  match given? s.maxErrors with
  | none => ({ trace := trace }, [])
  | some value =>
    match positive? value with
    | some n => ({ maxErrors := n, trace := trace }, [])
    | none => ({ trace := trace }, [.settingIgnored value])

end Settings

end PlZero.Command
