/-
  PlZero/Text/Numeral.lean
  ========================
  **Reading whole numbers from settings.**  A number may stand between spaces,
  may carry a sign, uses the decimal digits of any script, and may hold single
  underscores between its digits.  A number of more than 4300 digits is not read.
-/
import PlZero.Text.Blank

namespace PlZero.Text

/-- The largest number of digits a number is read from, leading zeros included. -/
def maxDigits : Nat := 4300

/-- The zeros of the decimal digit runs of Unicode 14.0.  Each run holds the ten
    digits in ascending order. -/
def digitZeros : List Nat := [
  0x30, 0x660, 0x6F0, 0x7C0, 0x966, 0x9E6, 0xA66, 0xAE6, 0xB66, 0xBE6, 0xC66, 0xCE6, 0xD66,
  0xDE6, 0xE50, 0xED0, 0xF20, 0x1040, 0x1090, 0x17E0, 0x1810, 0x1946, 0x19D0, 0x1A80, 0x1A90,
  0x1B50, 0x1BB0, 0x1C40, 0x1C50, 0xA620, 0xA8D0, 0xA900, 0xA9D0, 0xA9F0, 0xAA50, 0xABF0,
  0xFF10, 0x104A0, 0x10D30, 0x11066, 0x110F0, 0x11136, 0x111D0, 0x112F0, 0x11450, 0x114D0,
  0x11650, 0x116C0, 0x11730, 0x118E0, 0x11950, 0x11C50, 0x11D50, 0x11DA0, 0x16A60, 0x16AC0,
  0x16B50, 0x1D7CE, 0x1D7D8, 0x1D7E2, 0x1D7EC, 0x1D7F6, 0x1E140, 0x1E2F0, 0x1E950, 0x1FBF0]

/-- The value of a decimal digit of any script. -/
def digitValue? (c : Char) : Option Nat :=
  (digitZeros.find? fun z => z ≤ c.toNat && c.toNat ≤ z + 9).map (c.toNat - ·)

/-- The margin around a number: any space character but the four information
    separators. -/
def isNumeralMargin (c : Char) : Bool :=
  isSpace c && !(0x1C ≤ c.toNat && c.toNat ≤ 0x1F)

/-- Reads the digits that follow `count` digits of value `value`.  An underscore
    is passed over when a digit stands on both sides. -/
def digitsAfter (count value : Nat) : List Char → Option (Nat × Nat)
  | [] => if count = 0 then none else some (count, value)
  | '_' :: c :: rest =>
    if count = 0 then none
    else match digitValue? c with
      | some d => digitsAfter (count + 1) (10 * value + d) rest
      | none => none
  | c :: rest =>
    match digitValue? c with
    | some d => digitsAfter (count + 1) (10 * value + d) rest
    | none => none

/-- The number written by unsigned digits, if there are at most `maxDigits`. -/
def unsigned? (cs : List Char) : Option Nat :=
  match digitsAfter 0 0 cs with
  | some (count, value) => if count ≤ maxDigits then some value else none
  | none => none

/-- The whole number that a setting writes. -/
def integer? (text : String) : Option Int :=
  match trimmed isNumeralMargin text.toList with
  | '+' :: rest => (unsigned? rest).map Int.ofNat
  | '-' :: rest => (unsigned? rest).map fun n => -Int.ofNat n
  | rest => (unsigned? rest).map Int.ofNat

end PlZero.Text
