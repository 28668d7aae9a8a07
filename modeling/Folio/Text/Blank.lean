/-!
# White space and line ends

`isBlank` is Unicode white space, the class that trimming removes and that every
annotation grammar skips.  `isLayoutBlank` is the smaller class of HTML, in which
a no-break space is content.  `lines` cuts at every Unicode line boundary,
`splitAt` at one character only.
-/

namespace Folio.Text

/-- Unicode white space, the information separators U+001C to U+001F included. -/
def isBlank (c : Char) : Bool :=
  let n := c.toNat
  (9 ≤ n && n ≤ 13) || (28 ≤ n && n ≤ 32) || n == 0x85 || n == 0xA0 || n == 0x1680 ||
    (0x2000 ≤ n && n ≤ 0x200A) || n == 0x2028 || n == 0x2029 || n == 0x202F ||
    n == 0x205F || n == 0x3000

/-- White space of HTML: space, tab, line feed, carriage return, form feed. -/
def isLayoutBlank (c : Char) : Bool :=
  c == ' ' || c == '\t' || c == '\n' || c == '\r' || c == '\x0c'

/-- Space and tab. -/
def isSpaceOrTab (c : Char) : Bool :=
  c == ' ' || c == '\t'

/-- A character that ends a line wherever lines are cut by Unicode's rules. -/
def isLineBoundary (c : Char) : Bool :=
  let n := c.toNat
  (10 ≤ n && n ≤ 13) || (28 ≤ n && n ≤ 30) || n == 0x85 || n == 0x2028 || n == 0x2029

/-! ## Trimming -/

/-- `s` without the longest prefix whose characters all satisfy `p`. -/
def trimLeft (p : Char → Bool) (s : List Char) : List Char :=
  s.dropWhile p

/-- `s` without the longest suffix whose characters all satisfy `p`. -/
def trimRight (p : Char → Bool) (s : List Char) : List Char :=
  (s.reverse.dropWhile p).reverse

/-- `s` without white space, as given by `p`, at its two ends. -/
def trimBy (p : Char → Bool) (s : List Char) : List Char :=
  trimRight p (trimLeft p s)

/-- `s` without Unicode white space at its two ends. -/
def trim (s : List Char) : List Char :=
  trimBy isBlank s

/-! ## Cutting -/

/-- The pieces of `s` between the characters that satisfy `p`; one piece more
than there are such characters. -/
def splitBy (p : Char → Bool) : List Char → List (List Char)
  | [] => [[]]
  | c :: rest =>
      if p c then [] :: splitBy p rest
      else
        match splitBy p rest with
        | [] => [[c]]
        | piece :: pieces => (c :: piece) :: pieces

/-- The pieces of `s` between occurrences of one character. -/
def splitAt (mark : Char) (s : List Char) : List (List Char) :=
  splitBy (· == mark) s

/-- The maximal runs of characters that do not satisfy `p`. -/
def wordsBy (p : Char → Bool) (s : List Char) : List (List Char) :=
  (splitBy p s).filter fun piece => !piece.isEmpty

/-- Adds a character in front of the first line. -/
def consLine (c : Char) : List (List Char) → List (List Char)
  | [] => [[c]]
  | line :: rest => (c :: line) :: rest

/-- The lines of `s`, each with the characters that end it.  A carriage return
followed by a line feed ends one line, and the last line may be unterminated;
the empty text has no lines. -/
def linesWithEnds : List Char → List (List Char)
  | [] => []
  | '\r' :: '\n' :: rest => ['\r', '\n'] :: linesWithEnds rest
  | c :: rest =>
      if isLineBoundary c then [c] :: linesWithEnds rest
      else consLine c (linesWithEnds rest)

/-- A line without the boundary characters that end it. -/
def withoutEnd (line : List Char) : List Char :=
  if line.reverse.take 2 = ['\n', '\r'] then line.dropLast.dropLast
  else
    match line.getLast? with
    | some c => if isLineBoundary c then line.dropLast else line
    | none => line

/-- The lines of `s` without the characters that end them. -/
def lines (s : List Char) : List (List Char) :=
  (linesWithEnds s).map withoutEnd

/-- `pieces` one after another with `mark` between each two. -/
def joinWith (mark : List Char) (pieces : List (List Char)) : List Char :=
  (pieces.intersperse mark).flatten

/-- Every line end of a text file, `\r\n` or a lone `\r`, becomes a line feed. -/
def normalizeLineEnds : List Char → List Char
  | [] => []
  | '\r' :: '\n' :: rest => '\n' :: normalizeLineEnds rest
  | '\r' :: rest => '\n' :: normalizeLineEnds rest
  | c :: rest => c :: normalizeLineEnds rest

end Folio.Text
