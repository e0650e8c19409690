/-
  PlZero/Token/Scan.lean
  ======================
  **From text to tokens.**  A source alternates between trivia (blanks, and comments
  that run from two slashes to the end of the line) and lexemes; every trivia and
  every lexeme is as long as it can be.  A lexeme is a word, a run of digits, an
  operator of one or two characters, or else a single character that can start
  nothing, which is illegal.

  There are two ways to scan.  `scan` goes to the end of the source and hands each
  fault along with its token.  `scanStrict` stops at the first fault.  A digit run
  that is too long to be read ends either.
-/
import PlZero.Failure
import PlZero.Text.Numeral

namespace PlZero

/-! ### Characters -/

/-- The characters that separate lexemes. -/
def isBlank (c : Char) : Bool := c == ' ' || c == '\t' || c == '\n' || c == '\r' || c == '\x0c'

/-- An ASCII letter. -/
def isLetter (c : Char) : Bool := ('a' ≤ c && c ≤ 'z') || ('A' ≤ c && c ≤ 'Z')

/-- An ASCII decimal digit. -/
def isDigit (c : Char) : Bool := '0' ≤ c && c ≤ '9'

/-- The characters of a word after its first letter. -/
def isWordChar (c : Char) : Bool := isLetter c || isDigit c || c == '_'

/-- The largest value that a number token carries. -/
def maxNumber : Nat := 2147483647

/-- The number that a run of decimal digits writes. -/
def digitsValue (ds : List Char) : Nat := ds.foldl (fun n d => 10 * n + (d.toNat - 48)) 0

/-! ### Places -/

/-- A place in a source: line and column, the text from the start of the line, and
    the text from the place on. -/
structure Cursor where
  line : Nat
  column : Nat
  lineStart : List Char
  rest : List Char
  deriving DecidableEq, Repr

namespace Cursor

/-- The beginning of a source. -/
def start (source : List Char) : Cursor := ⟨1, 1, source, source⟩

/-- The location of a place in a file. -/
def location (c : Cursor) (file : String) : Location := ⟨file, c.line, c.column⟩

/-- The text of the line a place is in. -/
def lineText (c : Cursor) : List Char := c.lineStart.takeWhile fun ch => ch != '\n'

/-- The place behind a lexeme, which holds no line feed. -/
def past (c : Cursor) (lexeme rest : List Char) : Cursor :=
  { c with column := c.column + lexeme.length, rest := rest }

end Cursor

/-- The place behind the trivia that a text begins with.  `inComment` tells whether
    the text goes on with a comment. -/
def skipTrivia (inComment : Bool) (line column : Nat) (lineStart : List Char) :
    List Char → Cursor
  | [] => ⟨line, column, lineStart, []⟩
  | '\n' :: rest => skipTrivia false (line + 1) 1 rest rest
  | c :: rest =>
    if inComment || isBlank c then skipTrivia inComment line (column + 1) lineStart rest
    else if c = '/' then
      match rest with
      | '/' :: rest' => skipTrivia true line (column + 2) lineStart rest'
      | _ => ⟨line, column, lineStart, c :: rest⟩
    else ⟨line, column, lineStart, c :: rest⟩

/-- The place behind the trivia at a place. -/
def Cursor.skipTrivia (c : Cursor) : Cursor :=
  PlZero.skipTrivia false c.line c.column c.lineStart c.rest

/-! ### Lexemes -/

/-- A lexeme, by its class. -/
inductive Lexeme
  | word (cs : List Char)
  | digits (ds : List Char)
  | operator (kind : Kind) (cs : List Char)
  | illegal (c : Char)
  deriving DecidableEq, Repr

namespace Lexeme

/-- The characters of a lexeme. -/
def chars : Lexeme → List Char
  | word cs => cs
  | digits ds => ds
  | operator _ cs => cs
  | illegal c => [c]

/-- The longest lexeme at the beginning of the text `c :: rest`, and the text
    behind it. -/
def longest (c : Char) (rest : List Char) : Lexeme × List Char :=
  if isLetter c then
    let (cs, behind) := rest.span isWordChar
    (word (c :: cs), behind)
  else if isDigit c then
    let (ds, behind) := rest.span isDigit
    (digits (c :: ds), behind)
  else
    match rest with
    | [] => (single c, [])
    | d :: behind =>
      match Kind.ofPair? c d with
      | some k => (operator k [c, d], behind)
      | none => (single c, d :: behind)
where
  /-- The lexeme of one character that is no letter and no digit. -/
  single (c : Char) : Lexeme :=
    match Kind.ofChar? c with
    | some k => operator k [c]
    | none => illegal c

/-- The kind and the payload of a word. -/
def wordToken (cs : List Char) : Kind × Payload :=
  let word := String.ofList cs
  match Kind.ofKeyword? word with
  | some k => (k, .absent)
  | none => (.identifier, .text word)

/-- What a lexeme means: the kind and payload of its token, and its fault if it has
    one.  A number that is too large counts as zero.  A run of too many digits has
    no meaning. -/
def meaning : Lexeme → Option (Kind × Payload × Option Problem)
  | word cs => let (k, p) := wordToken cs; some (k, p, none)
  | digits ds =>
    if Text.maxDigits < ds.length then none
    else if maxNumber < digitsValue ds then some (.number, .number 0, some .integerTooLarge)
    else some (.number, .number (digitsValue ds), none)
  | operator k _ => some (k, .absent, none)
  | illegal c => some (.illegal, .text (String.singleton c), some (.illegalCharacter c))

end Lexeme

/-! ### Scanning -/

/-- What scanning hands over next: a token with the fault of its lexeme if it has
    one, or the news that a digit run was too long to read. -/
inductive Scan
  | token (t : Token) (fault : Option Problem)
  | overlong (digits : Nat)
  deriving DecidableEq, Repr

/-- What stands at a place once trivia is passed over: the end of the source, or a
    lexeme and the place behind it. -/
inductive Step
  | ended (place : Cursor)
  | found (place : Cursor) (lexeme : Lexeme) (behind : Cursor)

/-- Passes over trivia and takes a lexeme. -/
def Cursor.step (c : Cursor) : Step :=
  let place := c.skipTrivia
  match place.rest with
  | [] => .ended place
  | ch :: rest =>
    let (lexeme, behind) := Lexeme.longest ch rest
    .found place lexeme (place.past lexeme.chars behind)

/-- Scans at most `fuel` lexemes; `done` holds the scans so far, latest first. -/
def scanFrom (file : String) : Nat → Cursor → List Scan → List Scan
  | 0, c, done => (.token (.endOfFile (c.location file)) none :: done).reverse
  | fuel + 1, c, done =>
    match c.step with
    | .ended place => (.token (.endOfFile (place.location file)) none :: done).reverse
    | .found place lexeme behind =>
      match lexeme.meaning with
      | none => (.overlong lexeme.chars.length :: done).reverse
      | some (k, p, fault) =>
        scanFrom file fuel behind (.token ⟨k, place.location file, p⟩ fault :: done)

/-- The scans of a source: its tokens, each with the fault of its lexeme, up to the
    token that ends the input or a digit run that is too long. -/
def scan (source : List Char) (file : String) : List Scan :=
  scanFrom file (source.length + 1) (Cursor.start source) []

/-- The failure that a fault is when nobody collects it. -/
def faultFailure (fault : Problem) (location : Location) (lineText : String) : Failure :=
  match fault with
  | .illegalCharacter c => .invalidCharacter c (some location) (some lineText)
  | fault => .compilation fault.message (some location) none (some lineText)

/-- Scans at most `fuel` lexemes and stops at the first fault. -/
def scanStrictFrom (file : String) : Nat → Cursor → List Token → List Token × Option Failure
  | 0, c, done => ((.endOfFile (c.location file) :: done).reverse, none)
  | fuel + 1, c, done =>
    match c.step with
    | .ended place => ((.endOfFile (place.location file) :: done).reverse, none)
    | .found place lexeme behind =>
      match lexeme.meaning with
      | none => (done.reverse, some (.longDigitRun lexeme.chars.length))
      | some (k, p, none) =>
        scanStrictFrom file fuel behind (⟨k, place.location file, p⟩ :: done)
      | some (_, _, some fault) =>
        (done.reverse,
          some (faultFailure fault (place.location file) (String.ofList place.lineText)))

/-- The tokens of a source up to its first fault, and that fault as a failure. -/
def scanStrict (source : List Char) (file : String) : List Token × Option Failure :=
  scanStrictFrom file (source.length + 1) (Cursor.start source) []

end PlZero
