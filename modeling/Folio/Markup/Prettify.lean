import Folio.Markup.Formatter
import Folio.Markup.Reader

/-!
# Pretty-printing HTML

Blocks stand on lines of their own, indented by two spaces a level; inline
content is filled into lines; a run of blank lines becomes one; the text ends in
one line end.  Equal inputs give equal outputs.
-/

namespace Folio.Markup

open Text

/-- The column at which inline content wraps unless another is asked for. -/
def defaultWidth : Int := 120

/-- A line without any character but white space. -/
def isEmptyLine (line : List Char) : Bool :=
  line.all isBlank

/-- Lines without the blank ones at both ends. -/
def trimLines (lines : List (List Char)) : List (List Char) :=
  ((lines.reverse.dropWhile isEmptyLine).reverse).dropWhile isEmptyLine

/-- The lines that a list of tokens is laid out in. -/
def layOut (width : Int) (tokens : List Token) : List (List Char) :=
  (tokens.foldl State.step (State.start width)).finish.lines

/-- The text made of lines, with a line end after the last one. -/
def printLines (lines : List (List Char)) : List Char :=
  joinWith ['\n'] (trimLines lines) ++ ['\n']

/-- A text in HTML, pretty-printed for a width. -/
def prettify (width : Int) (text : List Char) : Except MarkupError (List Char) :=
  (tokens text).map fun ts => printLines (layOut width ts)

end Folio.Markup
