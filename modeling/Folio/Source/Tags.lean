import Folio.Source.Frontmatter

/-!
# Tags

A template is tagged in its frontmatter, in a comment `{# tags: a, b #}` or in a
comment of HTML.  `tags` takes the first of the three spellings that names any.
-/

namespace Folio.Source

open Text

/-- The word `tags`, blanks, a colon and blanks, in any case. -/
def tagsMark (s : List Char) : Option (List Char) := do
  let rest ← dropWordAnyCase "tags".toList s
  let rest ← dropWord [':'] (dropBlanks rest)
  return rest

/-- The tags of a list written between optional brackets, separated by commas or
line feeds. -/
def splitTags (value : List Char) : List (List Char) :=
  let inner := trim value
  let inner := if inner.head? = some '[' then inner.tail else inner
  let inner := if inner.getLast? = some ']' then inner.dropLast else inner
  listValues (fun c => c == ',' || c == '\n') inner

/-! ## Frontmatter -/

/-- Reads `tags: [a, b]`. -/
def inlineTagsPattern (before : Option Char) : Pattern (List Char) := fun s =>
  if wordMayBegin before then do
    let rest ← tagsMark s
    let rest ← dropWord ['['] (dropBlanks rest)
    match rest.dropWhile (· != ']') with
    | _ :: after => return (rest.takeWhile (· != ']'), after)
    | [] => none
  else none

/-- What follows the last line feed among the blanks at the start of a text. -/
def afterBlankLines (s : List Char) : Option (List Char) :=
  let blanks := s.takeWhile isBlank
  let tail := blanks.reverse.takeWhile (· != '\n')
  if tail.length < blanks.length then some (tail.reverse ++ s.dropWhile isBlank) else none

/-- Reads `tags:` with nothing else on its line; the value is the rest of the
text. -/
def listedTagsPattern (before : Option Char) : Pattern (List Char) := fun s =>
  if wordMayBegin before then do
    let rest ← afterBlankLines (← tagsMark s)
    return (rest, [])
  else none

/-- The items of a list with dashes, up to the first line that is not blank and
has no dash; blank items are left out. -/
def dashItems (ls : List (List Char)) : List (List Char) :=
  let filled := (ls.map trim).filter fun line => !line.isEmpty
  ((filled.takeWhile fun line => line.head? = some '-').map fun line => unquote line.tail).filter
    fun item => !item.isEmpty

/-- Tags of the frontmatter, as an inline list if there is one, else as a list
with dashes. -/
def frontmatterTags (text : List Char) : List (List Char) :=
  match frontmatter text with
  | none => []
  | some block =>
      match firstMatch inlineTagsPattern block with
      | some found => splitTags found.value
      | none =>
          match firstMatch listedTagsPattern block with
          | some found => dashItems (lines found.value)
          | none => []

/-! ## Comments -/

/-- A text without one hyphen at its end, unless it is only that. -/
def dropClosingHyphen (s : List Char) : List Char :=
  if s.getLast? = some '-' && 1 < s.length then s.dropLast else s

/-- Reads the content of a comment after its colon, up to `#}`.  The content
holds no number sign and is not empty; blanks around it are no part of it. -/
def commentValue : Pattern (List Char) := fun s =>
  let content := s.takeWhile (· != '#')
  if content.isEmpty then none
  else (dropWord ['#', '}'] (s.dropWhile (· != '#'))).map fun rest =>
    (dropClosingHyphen (dropBlanks content), rest)

/-- Reads `{# tags: a, b #}`. -/
def commentTagsPattern : Pattern (List Char) := fun s => do
  let rest ← dropWord ['{', '#'] s
  let rest ← tagsMark (dropBlanks (dropOne ['-'] rest))
  commentValue rest

/-- The text before the first occurrence of a mark, and what follows the mark. -/
def splitAtWord (mark : List Char) : List Char → Option (List Char × List Char)
  | [] => (dropWord mark []).map fun rest => ([], rest)
  | c :: s =>
      match dropWord mark (c :: s) with
      | some rest => some ([], rest)
      | none => (splitAtWord mark s).map fun (body, rest) => (c :: body, rest)

/-- Reads `<!-- tags: a, b -->`. -/
def markupTagsPattern : Pattern (List Char) := fun s => do
  let rest ← dropWord "<!--".toList s
  let rest ← tagsMark (dropBlanks rest)
  splitAtWord "-->".toList rest

/-- Tags of the first comment that has any. -/
def commentTags (text : List Char) : List (List Char) :=
  match firstMatch (fun _ => commentTagsPattern) text with
  | some found => splitTags found.value
  | none => []

/-- Tags of the first comment of HTML that has any. -/
def markupCommentTags (text : List Char) : List (List Char) :=
  match firstMatch (fun _ => markupTagsPattern) text with
  | some found => splitTags found.value
  | none => []

/-- The distinct tags of a text. -/
def tags (text : List Char) : List (List Char) :=
  let sources := [frontmatterTags, commentTags, markupCommentTags]
  (sources.findSome? fun source =>
    match distinct (source text) with
    | [] => none
    | found => some found).getD []

end Folio.Source
