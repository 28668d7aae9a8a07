import Folio.Text.Printable

/-!
# Tokens of HTML

A text is read as a list of tokens.  A token keeps what is needed to print it:
`Token.piece` is the text that a token stands for in the output, and the printer
adds and removes white space only between and around pieces.

Names of elements are in lower case; `source` is the text of a tag as it was
written.
-/

namespace Folio.Markup

/-- One token of a text in HTML. -/
inductive Token
  | startTag (name : String) (source : List Char)
  | emptyTag (name : String) (source : List Char)
  | endTag (name : String)
  | data (text : List Char)
  | entity (name : List Char)
  | charCode (digits : List Char)
  | comment (text : List Char)
  | declaration (text : List Char)
  | markedSection (text : List Char)
  | instruction (text : List Char)
  deriving Repr, DecidableEq

/-- The end tag of an element. -/
def closing (name : String) : List Char :=
  '<' :: '/' :: name.toList ++ ['>']

/-- The text that a token is printed as. -/
def Token.piece : Token → List Char
  | .startTag _ source => source
  | .emptyTag _ source => source
  | .endTag name => closing name
  | .data text => text
  | .entity name => '&' :: name ++ [';']
  | .charCode digits => '&' :: '#' :: digits ++ [';']
  | .comment text => "<!--".toList ++ text ++ "-->".toList
  | .declaration text => "<!".toList ++ text ++ ">".toList
  | .markedSection text => "<![".toList ++ text ++ "]>".toList
  | .instruction text => "<?".toList ++ text ++ ">".toList

/-- Why a text cannot be read: a marked section `<![` whose name is not one of
the known ones, or that has no name where one must stand. -/
inductive MarkupError
  | unknownSection (name : List Char)
  | nameExpected (found : List Char)
  deriving Repr, DecidableEq

/-- The report of an error; `found` is quoted as the reader met it. -/
def MarkupError.message : MarkupError → String
  | .unknownSection name =>
      "unknown status keyword " ++ String.ofList (Text.quote name) ++ " in marked section"
  | .nameExpected found => "expected name token at " ++ String.ofList (Text.quote found)

end Folio.Markup
