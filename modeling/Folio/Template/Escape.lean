import Folio.Template.Show
import Folio.Text.Search

/-!
# Escaping

Characters that mean something in markup are written as entities in text that is
not safe already.
-/

namespace Folio.Template

/-- A character as it stands in markup. -/
def escapeChar (c : Char) : List Char :=
  match c with
  | '&' => "&amp;".toList
  | '<' => "&lt;".toList
  | '>' => "&gt;".toList
  | '\'' => "&#39;".toList
  | '"' => "&#34;".toList
  | _ => [c]

/-- A text as it stands in markup. -/
def escape (s : List Char) : List Char :=
  s.flatMap escapeChar

/-- The entities that stand for one character. -/
def plainEntities : List (String × Char) :=
  [("amp", '&'), ("lt", '<'), ("gt", '>'), ("quot", '"'), ("apos", '\''), ("nbsp", '\u00a0')]

/-- The character that an entity stands for. -/
def entityChar? (name : List Char) : Option Char :=
  match name with
  | '#' :: 'x' :: digits =>
      if Decimal.areDigits 16 digits then some (Char.ofNat (Decimal.digitsValue 16 digits))
      else none
  | '#' :: digits =>
      if Decimal.areDigits 10 digits then some (Char.ofNat (Decimal.digitsValue 10 digits))
      else none
  | _ => plainEntities.lookup (String.ofList name)

/-- A text with characters for its entities. -/
def unescapeEntities : Nat → List Char → List Char
  | 0, s => s
  | _, [] => []
  | fuel + 1, '&' :: rest =>
      let name := rest.takeWhile fun c => c.isAlphanum || c == '#'
      match rest.dropWhile fun c => c.isAlphanum || c == '#' with
      | ';' :: after =>
          match entityChar? name with
          | some c => c :: unescapeEntities fuel after
          | none => '&' :: unescapeEntities fuel rest
      | _ => '&' :: unescapeEntities fuel rest
  | fuel + 1, c :: rest => c :: unescapeEntities fuel rest

/-- A text without what stands between marks. -/
def removeBetween (first last : List Char) : Nat → List Char → List Char
  | 0, s => s
  | fuel + 1, s =>
      match Text.find? first s with
      | none => s
      | some start =>
          match Text.find? last (s.drop start) with
          | none => s
          | some n =>
              removeBetween first last fuel (s.take start ++ s.drop (start + n + last.length))

/-- The words of markup without its tags. -/
def withoutTags (s : List Char) : List Char :=
  let fuel := s.length + 1
  let plain := removeBetween ['<'] ['>'] fuel (removeBetween "<!--".toList "-->".toList fuel s)
  let words := Text.joinWith [' '] (Text.wordsBy Text.isBlank plain)
  unescapeEntities (words.length + 1) words

namespace Render

/-- The text of a value as it stands in markup. -/
def escaped (v : Value) : Render (List Char) := do
  match v with
  | .safe s => return s
  | _ => return escape (← shown v)

/-- The text of a value that is printed, escaped where the context asks for it. -/
def printed (context : Nat) (v : Value) : Render (List Char) := do
  if (← Render.context context).escapes then escaped v else shown v

end Render

end Folio.Template
