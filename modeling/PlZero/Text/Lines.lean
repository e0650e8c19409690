/-
  PlZero/Text/Lines.lean
  ======================
  **Splitting a text into display lines**, and the one spelling of a line end.

  A display line ends at any character that starts a new line on a page: line
  feed, carriage return (alone or before a line feed), vertical tab, form feed,
  the information separators `U+001C` to `U+001E`, next line, and the line and
  paragraph separators.  The listing shows its context in such lines.
-/

namespace PlZero.Text

/-- The characters at which a display line ends. -/
def endsLine (c : Char) : Bool :=
  let n := c.toNat
  (0x0A ≤ n && n ≤ 0x0D) || (0x1C ≤ n && n ≤ 0x1E) || n == 0x85 || n == 0x2028 || n == 0x2029

/-- Splits the text that follows `held`, the characters of the line begun so far
    in reverse; `found` holds the finished lines, latest first. -/
def linesAfter (held : List Char) (found : List String) : List Char → List String
  | [] => (if held.isEmpty then found else String.ofList held.reverse :: found).reverse
  | '\r' :: '\n' :: rest => linesAfter [] (String.ofList held.reverse :: found) rest
  | c :: rest =>
    if endsLine c then linesAfter [] (String.ofList held.reverse :: found) rest
    else linesAfter (c :: held) found rest

/-- The display lines of a text, without the characters that end them.  A line
    end at the end of the text opens no further line. -/
def lines (text : String) : List String := linesAfter [] [] text.toList

/-- Writes every line end, be it a pair of carriage return and line feed or a
    carriage return alone, as a line feed; `done` is the result so far in reverse. -/
def unifyLineEndsAfter (done : List Char) : List Char → List Char
  | [] => done.reverse
  | '\r' :: '\n' :: rest => unifyLineEndsAfter ('\n' :: done) rest
  | c :: rest => unifyLineEndsAfter ((if c = '\r' then '\n' else c) :: done) rest

/-- The text with each of the three usual line ends written as a line feed. -/
def unifyLineEnds (cs : List Char) : List Char := unifyLineEndsAfter [] cs

/-- Removes the line feeds and carriage returns that end a text. -/
def dropLineEnd (line : String) : String :=
  String.ofList ((line.toList.reverse.dropWhile fun c => c == '\n' || c == '\r').reverse)

end PlZero.Text
