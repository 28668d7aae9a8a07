import Folio.Text.Blank

/-!
# The extent of a start tag

Where a start tag ends is decided by reading a name and then attributes, each a
name with an optional value.  The rules are tolerant: slashes count as blanks
unless one closes the tag, a quotation mark without a partner is part of a name,
and a tag that runs into a character that cannot belong to it ends before it.

All functions here take a text and return what is left of it; `consumed` gives
the part between the two.
-/

namespace Folio.Markup

open Text

/-- The part of `s` before its suffix `rest`. -/
def consumed (s rest : List Char) : List Char :=
  s.take (s.length - rest.length)

/-- What follows the first occurrence of a character. -/
def afterFirst (mark : Char) : List Char → Option (List Char)
  | [] => none
  | c :: rest => if c == mark then some rest else afterFirst mark rest

/-- A letter of the basic alphabet. -/
def isLetter (c : Char) : Bool :=
  c.isAlpha

/-- A character that may stand in the name of an element after its first. -/
def isTagNameChar (c : Char) : Bool :=
  !(c == '\t' || c == '\n' || c == '\r' || c == '\x0c' || c == ' ' || c == '/' || c == '>' ||
    c == '\x00')

/-- Skips blanks, and slashes other than one in front of `>`. -/
def skipSeparators : List Char → List Char
  | [] => []
  | c :: rest =>
      if isBlank c then skipSeparators rest
      else if c == '/' && rest.head? != some '>' then skipSeparators rest
      else c :: rest

/-- What follows the value of an attribute, from the equals sign on.  A
quotation mark without a partner opens no value: the value before it is then
empty, or is bare and begins at a second equals sign, or there is none. -/
def value? (s : List Char) : Option (List Char) :=
  let marks := (s.dropWhile isBlank).takeWhile (· == '=')
  let afterMarks := (s.dropWhile isBlank).dropWhile (· == '=')
  let start := afterMarks.dropWhile isBlank
  let bare := fun t : List Char => t.dropWhile fun c => !(isBlank c) && c != '>'
  if marks.isEmpty then none
  else
    match start with
    | [] => some []
    | q :: body =>
        if q == '\'' || q == '"' then
          match afterFirst q body with
          | some rest => some rest
          | none =>
              if start.length < afterMarks.length then some start
              else if 2 ≤ marks.length then some (bare start)
              else none
        else some (bare start)

/-- What follows one attribute and the separators after it.  `prev` is the
character before `s`: an attribute begins only after a blank, a slash or a
quotation mark. -/
def attribute? (prev : Char) : List Char → Option (List Char)
  | [] => none
  | c :: rest =>
      if (isBlank prev || prev == '/' || prev == '\'' || prev == '"') &&
          !(isBlank c || c == '/' || c == '>') then
        let afterName := rest.dropWhile fun d => !(isBlank d || d == '/' || d == '=' || d == '>')
        some (skipSeparators ((value? afterName).getD afterName))
      else none

/-- What follows the longest run of attributes. -/
def skipAttributes : Nat → Char → List Char → List Char
  | 0, _, s => s
  | fuel + 1, prev, s =>
      match attribute? prev s with
      | none => s
      | some rest => skipAttributes fuel ((consumed s rest).getLastD prev) rest

/-- How a start tag ends: not within the text, or with `rest` after it. -/
inductive TagEnd
  | incomplete
  | found (rest : List Char)

/-- Where the start tag at `s` ends, `s` being the text after `<`. -/
def tagEnd (s : List Char) : TagEnd :=
  let afterName := s.dropWhile isTagNameChar
  let body := afterName.dropWhile fun c => isBlank c || c == '/'
  let prev := (consumed s body).getLastD ' '
  match (skipAttributes body.length prev body).dropWhile isBlank with
  | [] => .incomplete
  | '>' :: rest => .found rest
  | '/' :: '>' :: rest => .found rest
  | c :: rest => if c == '/' || c == '=' || isLetter c then .incomplete else .found (c :: rest)

/-- What stands between the attributes of the start tag at `s` and its end,
without blanks: `>` or `/>` for a tag that is well formed. -/
def tagTail (s rest : List Char) : List Char :=
  let body := skipSeparators (s.dropWhile isTagNameChar)
  let prev := (consumed s body).getLastD ' '
  trim (consumed (skipAttributes body.length prev body) rest)

end Folio.Markup
