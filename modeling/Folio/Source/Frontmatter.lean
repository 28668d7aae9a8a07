import Folio.Text.Occurrence

/-!
# Frontmatter

A template may begin with a block of data between two lines of three dashes.
`frontmatter` is that block without its delimiters, `blankFrontmatter` the text
with the block replaced by as many line feeds as it spans, so that lines keep
their numbers.
-/

namespace Folio.Source

open Text

/-- A line end: a line feed, which a carriage return may precede. -/
def lineEnd : List Char → Option (List Char)
  | '\r' :: '\n' :: rest => some rest
  | '\n' :: rest => some rest
  | _ => none

/-- What follows three dashes and spaces or tabs. -/
def dashes (s : List Char) : Option (List Char) :=
  (dropWord ['-', '-', '-'] s).map (·.dropWhile isSpaceOrTab)

/-- What follows the closing line, read from the line end before it; the line
may end the text. -/
def closingLine (s : List Char) : Option (List Char) :=
  ((lineEnd s).bind dashes).bind fun rest => if rest.isEmpty then some [] else lineEnd rest

/-- The text before the first closing line, and what follows that line. -/
def beforeClosingLine : List Char → Option (List Char × List Char)
  | [] => none
  | c :: s =>
      match closingLine (c :: s) with
      | some rest => some ([], rest)
      | none => (beforeClosingLine s).map fun (body, rest) => (c :: body, rest)

/-- The body of the frontmatter of a text and what follows the block. -/
def splitFrontmatter (text : List Char) : Option (List Char × List Char) :=
  ((dashes text).bind lineEnd).bind beforeClosingLine

/-- The body of a leading frontmatter block. -/
def frontmatter (text : List Char) : Option (List Char) :=
  (splitFrontmatter text).map (·.1)

/-- A text with the line feeds of its frontmatter block in place of the block. -/
def blankFrontmatter (text : List Char) : List Char :=
  match splitFrontmatter text with
  | none => text
  | some (_, rest) =>
      let block := text.take (text.length - rest.length)
      List.replicate (block.count '\n') '\n' ++ rest

end Folio.Source
