import Folio.Markup.StartTag
import Folio.Markup.Token
import Folio.Text.LetterCase

/-!
# Reading HTML

`tokens` reads a text in two passes.  The first stops at a construct that the
text does not complete; the second starts there, takes such constructs as data
and goes on.  What is left when the second pass stops is data, unless it is the
body of an unclosed `script` or `style` element, which is dropped.

In such a body only the end tag of the element is looked for.
-/

namespace Folio.Markup

open Text

/-- What the reader is inside of: ordinary markup, or the body of an element
whose content is not markup. -/
inductive Context
  | markup
  | rawText (element : String)
  deriving Repr, DecidableEq

/-- The elements whose body is not markup. -/
def rawTextElements : List String :=
  ["script", "style"]

/-- The outcome of reading one construct. -/
inductive Construct
  | incomplete
  | read (tokens : List Token) (context : Context) (rest : List Char)

/-- Splits at the first place where `close?` succeeds, which gives what follows
the closing mark. -/
def splitAtMark (close? : List Char → Option (List Char)) :
    List Char → Option (List Char × List Char)
  | [] => none
  | c :: s =>
      match close? (c :: s) with
      | some rest => some ([], rest)
      | none => (splitAtMark close? s).map fun (body, rest) => (c :: body, rest)

/-- A single closing character. -/
def closeMark (mark : Char) : List Char → Option (List Char)
  | [] => none
  | c :: rest => if c == mark then some rest else none

/-- A closing character that blanks may precede. -/
def blanksThen (mark : Char) (s : List Char) : Option (List Char) :=
  closeMark mark (s.dropWhile isBlank)

/-- The end of a comment: `--`, blanks and `>`. -/
def commentClose : List Char → Option (List Char)
  | '-' :: '-' :: rest => blanksThen '>' rest
  | _ => none

/-- The end of a conditional section: `]`, blanks and `>`. -/
def conditionalClose : List Char → Option (List Char)
  | ']' :: rest => blanksThen '>' rest
  | _ => none

/-- The end of a section of character data: two brackets and `>` with blanks
between them. -/
def sectionClose : List Char → Option (List Char)
  | ']' :: rest => (blanksThen ']' rest).bind (blanksThen '>')
  | _ => none

/-- What follows `name` at the start of a text, apart from case. -/
def dropName : List Char → List Char → Option (List Char)
  | [], s => some s
  | _ :: _, [] => none
  | a :: name, c :: s => if sameLetter a c then dropName name s else none

/-- The end tag of an element at the start of a text, in any case. -/
def rawTextClose (element : String) : List Char → Option (List Char)
  | '<' :: '/' :: rest =>
      (dropName element.toList (rest.dropWhile isBlank)).bind (blanksThen '>')
  | _ => none

/-! ## Tags -/

/-- Reads the start tag at `<` followed by `s`.  A tag that does not end in `>`
or `/>` is data. -/
def readStartTag (context : Context) (s : List Char) : Construct :=
  match tagEnd s with
  | .incomplete => .incomplete
  | .found rest =>
      let source := '<' :: consumed s rest
      let name := String.ofList (lower (s.takeWhile isTagNameChar))
      let tail := tagTail s rest
      if tail = ['/', '>'] then .read [.emptyTag name source] context rest
      else if tail = ['>'] then
        let inside := if rawTextElements.contains name then .rawText name else context
        .read [.startTag name source] inside rest
      else .read [.data source] context rest

/-- A character that may stand in the name of an end tag after its first. -/
def isEndNameChar (c : Char) : Bool :=
  c.isAlphanum || c == '-' || c == '.' || c == ':' || c == '_'

/-- The name of a well-formed end tag at `</` followed by `s`. -/
def endTagName? (s : List Char) : Option (List Char) :=
  match s.dropWhile isBlank with
  | c :: rest =>
      if isLetter c && (blanksThen '>' (rest.dropWhile isEndNameChar)).isSome then
        some (c :: rest.takeWhile isEndNameChar)
      else none
  | [] => none

/-- Reads the end tag at `</` followed by `s`.  In the body of a raw text
element everything but its own end tag is data. -/
def readEndTag (context : Context) (s : List Char) : Construct :=
  match splitAtMark (closeMark '>') s with
  | none => .incomplete
  | some (body, rest) =>
      let source := '<' :: '/' :: body ++ ['>']
      match endTagName? s, context with
      | some name, .markup => .read [.endTag (String.ofList (lower name))] .markup rest
      | some name, .rawText element =>
          if String.ofList (lower name) = element then .read [.endTag element] .markup rest
          else .read [.data source] context rest
      | none, .rawText _ => .read [.data source] context rest
      | none, .markup =>
          match s with
          | c :: _ =>
              if isLetter c then
                .read [.endTag (String.ofList (lower (s.takeWhile isTagNameChar)))] context rest
              else if body.isEmpty then .read [] context rest
              else .read [.comment body] context rest
          | [] => .incomplete

/-! ## Comments, declarations, sections -/

/-- Reads up to a closing mark and makes a token of what stands before it. -/
def readUntil (close? : List Char → Option (List Char)) (make : List Char → Token)
    (context : Context) (s : List Char) : Construct :=
  match splitAtMark close? s with
  | none => .incomplete
  | some (body, rest) => .read [make body] context rest

/-- The names of sections that end in `]]>`. -/
def dataSections : List String :=
  ["temp", "cdata", "ignore", "include", "rcdata"]

/-- The names of sections that end in `]>`. -/
def conditionalSections : List String :=
  ["if", "else", "endif"]

/-- A character that may stand in the name of a section after its first. -/
def isSectionNameChar (c : Char) : Bool :=
  c.isAlphanum || c == '-' || c == '_' || c == '.'

/-- Reads the section at `<![` followed by `s`. -/
def readSection (context : Context) (s : List Char) : Except MarkupError Construct :=
  match s with
  | [] => .ok .incomplete
  | c :: rest =>
      if isLetter c then
        let word := c :: rest.takeWhile isSectionNameChar
        let afterWord := rest.dropWhile isSectionNameChar
        let afterName := afterWord.dropWhile isBlank
        let name := String.ofList (lower word)
        if afterName.isEmpty then .ok .incomplete
        else if dataSections.contains name then
          .ok (readUntil sectionClose .markedSection context s)
        else if conditionalSections.contains name then
          .ok (readUntil conditionalClose .markedSection context s)
        else .error (.unknownSection (word ++ afterWord.takeWhile isBlank))
      else .error (.nameExpected (("<![".toList ++ s).take 20))

/-- Reads the declaration at `<!` followed by `s`. -/
def readDeclaration (context : Context) (s : List Char) : Except MarkupError Construct :=
  match s with
  | '-' :: '-' :: rest => .ok (readUntil commentClose .comment context rest)
  | '[' :: rest => readSection context rest
  | _ =>
      if lower (s.take 7) = "doctype".toList then
        match splitAtMark (closeMark '>') (s.drop 7) with
        | none => .ok .incomplete
        | some (body, rest) => .ok (.read [.declaration (s.take 7 ++ body)] context rest)
      else .ok (readUntil (closeMark '>') .comment context s)

/-- Reads the construct at `<` followed by `s`; `none` if `<` ends the text. -/
def readMarkup (context : Context) : List Char → Except MarkupError (Option Construct)
  | [] => .ok none
  | '/' :: s => .ok (some (readEndTag context s))
  | '!' :: s => (readDeclaration context s).map some
  | '?' :: s => .ok (some (readUntil (closeMark '>') .instruction context s))
  | c :: s =>
      if isLetter c then .ok (some (readStartTag context (c :: s)))
      else .ok (some (.read [.data ['<']] context (c :: s)))

/-- Takes an incomplete construct at `<` followed by `s` as data: up to and
with the next `>`, else up to the next `<`, else the one character. -/
def readBroken (context : Context) (s : List Char) : List Token × Context × List Char :=
  match splitAtMark (closeMark '>') s with
  | some (body, rest) => ([.data ('<' :: body ++ ['>'])], context, rest)
  | none =>
      if s.contains '<' then
        ([.data ('<' :: s.takeWhile (· != '<'))], context, s.dropWhile (· != '<'))
      else ([.data ['<']], context, s)

/-! ## References -/

/-- The outcome of reading at `&`: on to `rest`, or the pass stops there. -/
inductive Reference
  | read (tokens : List Token) (rest : List Char)
  | stop (tokens : List Token) (rest : List Char)

/-- A hexadecimal digit. -/
def isHex (c : Char) : Bool :=
  c.isDigit || ('a' ≤ c && c ≤ 'f') || ('A' ≤ c && c ≤ 'F')

/-- Drops a semicolon at the start. -/
def dropSemicolon : List Char → List Char
  | ';' :: rest => rest
  | s => s

/-- The digits of a character code at `&#` followed by `s`, and what follows
them; a code needs one more character after it, not a hexadecimal digit. -/
def charCode? (s : List Char) : Option (List Char × List Char) :=
  let digitsOf := fun (p : Char → Bool) (lead t : List Char) =>
    match t.takeWhile p, t.dropWhile p with
    | [], _ => none
    | _, [] => none
    | digits, c :: rest => if isHex c then none else some (lead ++ digits, c :: rest)
  match s with
  | 'x' :: t => digitsOf isHex ['x'] t
  | 'X' :: t => digitsOf isHex ['X'] t
  | _ => digitsOf Char.isDigit [] s

/-- The part of a name before its last hyphen or dot. -/
def cutName (name : List Char) : Option (List Char) :=
  match name.reverse.dropWhile Char.isAlphanum with
  | [] => none
  | _ :: front => if front.isEmpty then none else some front.reverse

/-- The name of an entity at `&` followed by `s`, and what follows it; a name
needs one more character after it, not a letter or digit. -/
def entityName? (s : List Char) : Option (List Char × List Char) :=
  let isNameChar := fun c : Char => c.isAlphanum || c == '-' || c == '.'
  match s with
  | c :: _ =>
      if isLetter c then
        let name := s.takeWhile isNameChar
        let rest := s.dropWhile isNameChar
        if rest.isEmpty then (cutName name).map fun front => (front, s.drop front.length)
        else some (name, rest)
      else none
  | [] => none

/-- Reads at `&` followed by `s`; `final` marks the second pass. -/
def readReference (final : Bool) (s : List Char) : Reference :=
  match s with
  | '#' :: t =>
      match charCode? t with
      | some (digits, rest) => .read [.charCode digits] (dropSemicolon rest)
      | none => if t.contains ';' then .stop [.data ['&', '#']] t else .stop [] ('&' :: s)
  | _ =>
      match entityName? s, s with
      | some (name, rest), _ => .read [.entity name] (dropSemicolon rest)
      | none, [] => .stop [] ['&']
      | none, c :: t =>
          if isLetter c then
            if final && t.isEmpty then .stop [] s else .stop [] ('&' :: s)
          else .read [.data ['&']] s

/-! ## Passes -/

/-- The state of a pass when it stops: the tokens it read, where it was, and
what it left. -/
structure Stopped where
  tokens : List Token
  context : Context
  rest : List Char

/-- Puts tokens in front of those of a pass. -/
def Stopped.after (tokens : List Token) (s : Stopped) : Stopped :=
  { s with tokens := tokens ++ s.tokens }

/-- The data token of a text, none if the text is empty. -/
def dataTokens (text : List Char) : List Token :=
  if text.isEmpty then [] else [.data text]

/-- The text before the next place where markup can begin, and what follows it;
`none` if the body of a raw text element has no end. -/
def splitData (context : Context) (s : List Char) : Option (List Char × List Char) :=
  match context with
  | .markup =>
      some (s.takeWhile fun c => c != '<' && c != '&', s.dropWhile fun c => c != '<' && c != '&')
  | .rawText element =>
      (splitAtMark (rawTextClose element) s).map fun (body, _) => (body, s.drop body.length)

/-- One pass over a text.  `fuel` bounds the number of constructs; each takes at
least one character, so the length of the text is enough. -/
def pass (final : Bool) : Nat → Context → List Char → Except MarkupError Stopped
  | 0, context, s => .ok ⟨[], context, s⟩
  | fuel + 1, context, s =>
      match splitData context s with
      | none => .ok ⟨[], context, s⟩
      | some (text, rest) =>
          match rest with
          | '<' :: body => do
              match ← readMarkup context body with
              | none => return ⟨dataTokens text, context, rest⟩
              | some (.read tokens inside rest') =>
                  return (← pass final fuel inside rest').after (dataTokens text ++ tokens)
              | some .incomplete =>
                  if final then
                    let (tokens, inside, rest') := readBroken context body
                    return (← pass final fuel inside rest').after (dataTokens text ++ tokens)
                  else return ⟨dataTokens text, context, rest⟩
          | '&' :: body =>
              match readReference final body with
              | .read tokens rest' =>
                  return (← pass final fuel context rest').after (dataTokens text ++ tokens)
              | .stop tokens rest' => return ⟨dataTokens text ++ tokens, context, rest'⟩
          | _ => .ok ⟨dataTokens text, context, []⟩

/-- The tokens of a text. -/
def tokens (text : List Char) : Except MarkupError (List Token) := do
  let first ← pass false (text.length + 1) .markup text
  let second ← pass true (first.rest.length + 1) first.context first.rest
  let left := if second.context = .markup then dataTokens second.rest else []
  return first.tokens ++ second.tokens ++ left

end Folio.Markup
