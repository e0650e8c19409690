/-
  PlZero/Text/Utf8.lean
  =====================
  **Strict decoding of UTF-8.**  A reader goes byte by byte and holds the
  sequence it is inside of.  Bytes that cannot go on with the sequence are a
  fault, which names the longest beginning of a sequence that was well formed.
-/

namespace PlZero.Text

/-- Why bytes are no UTF-8. -/
inductive Utf8Cause
  | invalidStart
  | invalidContinuation
  | unexpectedEnd
  deriving DecidableEq, Repr

/-- Bytes that are no UTF-8: those from `first` to `last`, of which the first
    has the value `byte`. -/
structure Utf8Fault where
  byte : UInt8
  first : Nat
  last : Nat
  cause : Utf8Cause
  deriving DecidableEq, Repr

/-- The wording of a cause. -/
def Utf8Cause.text : Utf8Cause → String
  | .invalidStart => "invalid start byte"
  | .invalidContinuation => "invalid continuation byte"
  | .unexpectedEnd => "unexpected end of data"

/-- A byte as two lower-case hexadecimal digits. -/
def byteText (b : UInt8) : String :=
  let ds := Nat.toDigits 16 b.toNat
  String.ofList (List.replicate (2 - ds.length) '0' ++ ds)

/-- The wording of a fault. -/
def Utf8Fault.message (f : Utf8Fault) : String :=
  if f.first = f.last then
    s!"'utf-8' codec can't decode byte 0x{byteText f.byte} in position {f.first}: {f.cause.text}"
  else
    s!"'utf-8' codec can't decode bytes in position {f.first}-{f.last}: {f.cause.text}"

/-- A sequence that has begun: the byte it began with and where, how many bytes
    it still lacks, the bounds of the next byte, and the bits read so far. -/
structure Utf8Pending where
  byte : UInt8
  start : Nat
  missing : Nat
  low : Nat
  high : Nat
  bits : Nat
  deriving DecidableEq, Repr

/-- What a byte of value `n` begins at position `start`, if it begins a sequence
    of several bytes.  The second byte of some sequences has narrower bounds, which
    keep out overlong forms, surrogates and values past the last code point. -/
def utf8Lead (b : UInt8) (start : Nat) : Option Utf8Pending :=
  let n := b.toNat
  if 0xC2 ≤ n ∧ n ≤ 0xDF then some ⟨b, start, 1, 0x80, 0xBF, n - 0xC0⟩
  else if n = 0xE0 then some ⟨b, start, 2, 0xA0, 0xBF, n - 0xE0⟩
  else if n = 0xED then some ⟨b, start, 2, 0x80, 0x9F, n - 0xE0⟩
  else if 0xE1 ≤ n ∧ n ≤ 0xEF then some ⟨b, start, 2, 0x80, 0xBF, n - 0xE0⟩
  else if n = 0xF0 then some ⟨b, start, 3, 0x90, 0xBF, n - 0xF0⟩
  else if 0xF1 ≤ n ∧ n ≤ 0xF3 then some ⟨b, start, 3, 0x80, 0xBF, n - 0xF0⟩
  else if n = 0xF4 then some ⟨b, start, 3, 0x80, 0x8F, n - 0xF0⟩
  else none

/-- Decodes the bytes from position `at` on, inside the sequence `pending` if
    there is one; `done` holds the characters so far in reverse. -/
def decodeUtf8From (position : Nat) (pending : Option Utf8Pending) (done : List Char) :
    List UInt8 → Except Utf8Fault (List Char)
  | [] =>
    match pending with
    | none => .ok done.reverse
    | some p => .error ⟨p.byte, p.start, position - 1, .unexpectedEnd⟩
  | b :: rest =>
    match pending with
    | none =>
      if b.toNat < 0x80 then
        decodeUtf8From (position + 1) none (Char.ofNat b.toNat :: done) rest
      else match utf8Lead b position with
        | some p => decodeUtf8From (position + 1) (some p) done rest
        | none => .error ⟨b, position, position, .invalidStart⟩
    | some p =>
      if p.low ≤ b.toNat ∧ b.toNat ≤ p.high then
        let bits := 64 * p.bits + (b.toNat - 0x80)
        if p.missing ≤ 1 then
          decodeUtf8From (position + 1) none (Char.ofNat bits :: done) rest
        else
          decodeUtf8From (position + 1)
            (some ⟨p.byte, p.start, p.missing - 1, 0x80, 0xBF, bits⟩) done rest
      else .error ⟨p.byte, p.start, position - 1, .invalidContinuation⟩

/-- The characters that the bytes encode, or the first fault. -/
def decodeUtf8 (bytes : List UInt8) : Except Utf8Fault (List Char) :=
  decodeUtf8From 0 none [] bytes

end PlZero.Text
