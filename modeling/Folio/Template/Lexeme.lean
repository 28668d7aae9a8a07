import Folio.Decimal.Number
import Folio.Template.Fault
import Folio.Text.Occurrence
import Folio.Text.Printable

/-!
# Lexemes of templates

A template is text with marked places: `{{ … }}` prints a value, `{% … %}` holds a
statement, `{# … #}` is a comment, and what stands between `{% raw %}` and
`{% endraw %}` is text.  A minus sign inside a mark drops the white space on that
side of it.

`lexemes` cuts a template into texts, marks and the words of expressions.  Where
it cannot go on, the last lexeme says why.
-/

namespace Folio.Template

open Text

/-- The signs of expressions. -/
inductive Sign
  | plus
  | minus
  | slash
  | doubleSlash
  | star
  | doubleStar
  | percent
  | tilde
  | openBracket
  | closeBracket
  | openParen
  | closeParen
  | openBrace
  | closeBrace
  | equal
  | notEqual
  | greater
  | greaterEqual
  | less
  | lessEqual
  | assign
  | dot
  | colon
  | bar
  | comma
  | semicolon
  deriving Repr, DecidableEq

/-- The signs by their spelling; one that another begins with comes later. -/
def Sign.spellings : List (List Char × Sign) :=
  [(['/', '/'], .doubleSlash), (['*', '*'], .doubleStar), (['=', '='], .equal),
    (['!', '='], .notEqual), (['>', '='], .greaterEqual), (['<', '='], .lessEqual),
    (['+'], .plus), (['-'], .minus), (['/'], .slash), (['*'], .star), (['%'], .percent),
    (['~'], .tilde), (['['], .openBracket), ([']'], .closeBracket), (['('], .openParen),
    ([')'], .closeParen), (['{'], .openBrace), (['}'], .closeBrace), (['>'], .greater),
    (['<'], .less), (['='], .assign), (['.'], .dot), ([':'], .colon), (['|'], .bar),
    ([','], .comma), ([';'], .semicolon)]

/-- The sign that closes what a sign opens. -/
def Sign.closing? : Sign → Option Sign
  | .openBracket => some .closeBracket
  | .openParen => some .closeParen
  | .openBrace => some .closeBrace
  | _ => none

/-- Whether a sign closes what another opened. -/
def Sign.closes : Sign → Bool
  | .closeBracket => true
  | .closeParen => true
  | .closeBrace => true
  | _ => false

/-- A piece of a template. -/
inductive Lexeme
  | data (text : List Char)
  | printBegin
  | printEnd
  | statementBegin
  | statementEnd
  | name (name : String)
  | text (text : List Char)
  | int (n : Int)
  | float (x : Float)
  | sign (sign : Sign)
  | bad (fault : Fault)
  deriving Repr

/-! ## Quoted texts -/

/-- A character as it stands between the quotation marks once all that is not
ASCII is written as an escape. -/
def escapeWide (c : Char) : List Char :=
  let n := c.toNat
  if n < 128 then [c]
  else if n < 256 then '\\' :: 'x' :: hexDigits 2 n
  else if n < 65536 then '\\' :: 'u' :: hexDigits 4 n
  else '\\' :: 'U' :: hexDigits 8 n

/-- The characters of the escapes that stand for one character. -/
def simpleEscapes : List (Char × List Char) :=
  [('\n', []), ('\\', ['\\']), ('\'', ['\'']), ('"', ['"']), ('a', ['\x07']), ('b', ['\x08']),
    ('f', ['\x0c']), ('n', ['\n']), ('r', ['\r']), ('t', ['\t']), ('v', ['\x0b'])]

/-- The character of a code, if there is one. -/
def charOfCode? (n : Nat) : Option Char :=
  if h : n.isValidChar then some (Char.ofNatAux n h) else none

/-- The character that `count` hexadecimal digits name, and what follows them. -/
def hexEscape? (count : Nat) (s : List Char) : Option (Char × List Char) :=
  let digits := s.take count
  if digits.length = count && Decimal.areDigits 16 digits then
    (charOfCode? (Decimal.digitsValue 16 digits)).map fun c => (c, s.drop count)
  else none

/-- Whether a character is an octal digit. -/
def isOctal (c : Char) : Bool :=
  '0' ≤ c && c ≤ '7'

/-- Replaces escapes; none if one is incomplete. -/
def unescape : Nat → List Char → Option (List Char)
  | 0, _ => some []
  | _, [] => some []
  | fuel + 1, '\\' :: c :: rest =>
      let next := fun (char : Char) (rest : List Char) =>
        (unescape fuel rest).map (char :: ·)
      let wide := fun (count : Nat) =>
        match hexEscape? count rest with
        | some (char, rest) => next char rest
        | none => none
      match simpleEscapes.lookup c with
      | some chars => (unescape fuel rest).map (chars ++ ·)
      | none =>
          if c == 'x' then wide 2
          else if c == 'u' then wide 4
          else if c == 'U' then wide 8
          else if c == 'N' then none
          else if isOctal c then
            let digits := c :: (rest.take 2).takeWhile isOctal
            next (Char.ofNat (Decimal.digitsValue 8 digits)) (rest.drop (digits.length - 1))
          else (unescape fuel rest).map ('\\' :: c :: ·)
  | _, ['\\'] => none
  | fuel + 1, c :: rest => (unescape fuel rest).map (c :: ·)

/-- The text that stands between quotation marks. -/
def quotedText? (inside : List Char) : Option (List Char) :=
  let plain := (normalizeLineEnds inside).flatMap escapeWide
  unescape (plain.length + 1) plain

/-- The characters up to the closing quotation mark, and what follows it. -/
def upToQuote (mark : Char) : List Char → Option (List Char × List Char)
  | [] => none
  | '\\' :: c :: rest => (upToQuote mark rest).map fun (s, rest) => ('\\' :: c :: s, rest)
  | c :: rest =>
      if c == mark then some ([], rest)
      else if c == '\\' then none
      else (upToQuote mark rest).map fun (s, rest) => (c :: s, rest)

/-! ## Numbers -/

/-- A run of digits in which single underscores may stand, and what follows it. -/
def digitRun (isDigit : Char → Bool) : List Char → List Char × List Char
  | '_' :: d :: rest =>
      if isDigit d then
        let (run, rest) := digitRun isDigit rest
        (d :: run, rest)
      else ([], '_' :: d :: rest)
  | c :: rest =>
      if isDigit c then
        let (run, rest) := digitRun isDigit rest
        (c :: run, rest)
      else ([], c :: rest)
  | [] => ([], [])

/-- A run of digits that begins with a digit. -/
def decimalRun (s : List Char) : List Char × List Char :=
  match s with
  | '_' :: _ => ([], s)
  | _ => digitRun isDecimalDigit s

/-- A fraction after its point, and what follows it. -/
def fractionRun? (s : List Char) : Option (List Char × List Char) :=
  match s with
  | '.' :: rest =>
      match decimalRun rest with
      | ([], _) => none
      | found => some found
  | _ => none

/-- An exponent with its sign, and what follows it. -/
def exponentRun? (s : List Char) : Option (Int × List Char) :=
  match s with
  | e :: rest =>
      if e == 'e' || e == 'E' then
        let (sign, rest) : Int × List Char := match rest with
          | '-' :: rest => (-1, rest)
          | '+' :: rest => (1, rest)
          | rest => (1, rest)
        match decimalRun rest with
        | ([], _) => none
        | (digits, rest) => some (sign * Decimal.digitsValue 10 digits, rest)
      else none
  | [] => none

/-- A number with a fraction or an exponent, and what follows it. -/
def floatRun? (s : List Char) : Option (Float × List Char) :=
  match decimalRun s with
  | ([], _) => none
  | (whole, rest) =>
      let (fraction, afterFraction) := (fractionRun? rest).getD ([], rest)
      let number := fun (exponent : Int) =>
        Decimal.floatOfDecimal (Decimal.digitsValue 10 (whole ++ fraction))
          (exponent - fraction.length)
      match exponentRun? afterFraction with
      | some (exponent, rest) => some (number exponent, rest)
      | none => if fraction.isEmpty then none else some (number 0, afterFraction)

/-- An integer written in a base other than ten, after its mark. -/
def markedInt? (base : Nat) (s : List Char) : Option (Lexeme × List Char) :=
  match digitRun (fun c => Decimal.areDigits base [c]) s with
  | ([], _) => none
  | (digits, rest) => some (.int (Decimal.digitsValue base digits), rest)

/-- An integer, and what follows it. -/
def intRun? (s : List Char) : Option (Lexeme × List Char) :=
  match s with
  | '0' :: rest =>
      let zeros := digitRun (· == '0') rest
      let marked := match rest with
        | mark :: digits =>
            if mark == 'b' || mark == 'B' then markedInt? 2 digits
            else if mark == 'o' || mark == 'O' then markedInt? 8 digits
            else if mark == 'x' || mark == 'X' then markedInt? 16 digits
            else none
        | [] => none
      some (marked.getD (.int 0, zeros.2))
  | c :: rest =>
      if c.isDigit then
        let (digits, rest) := digitRun isDecimalDigit rest
        if Decimal.maxDigits ≤ digits.length then some (.bad .badValue, rest)
        else some (.int (Decimal.digitsValue 10 (c :: digits)), rest)
      else none
  | [] => none

/-! ## Expressions -/

/-- One word of an expression at the start of a text, `before` being the character
in front of it. -/
def wordAt? (before : Option Char) (s : List Char) : Option (Lexeme × List Char) :=
  let float := if before = some '.' then none else floatRun? s
  match float with
  | some (x, rest) => some (.float x, rest)
  | none =>
      match intRun? s with
      | some found => some found
      | none =>
          match s with
          | [] => none
          | c :: rest =>
              if isWord c then
                let word := s.takeWhile isWord
                let lexeme :=
                  if isIdentifier word then .name (String.ofList word) else .bad .badSyntax
                some (lexeme, s.dropWhile isWord)
              else if c == '\'' || c == '"' then
                (upToQuote c rest).map fun (inside, rest) =>
                  (((quotedText? inside).map Lexeme.text).getD (.bad .badSyntax), rest)
              else
                Sign.spellings.findSome? fun (spelling, sign) =>
                  (dropWord spelling s).map fun rest => (.sign sign, rest)

/-- What follows the mark that ends a printed value. -/
def afterPrint? (s : List Char) : Option (List Char) :=
  match s with
  | '-' :: '}' :: '}' :: rest => some (dropBlanks rest)
  | '}' :: '}' :: rest => some rest
  | _ => none

/-- What follows the mark that ends a statement. -/
def afterStatement? (s : List Char) : Option (List Char) :=
  match s with
  | '+' :: '%' :: '}' :: rest => some rest
  | '-' :: '%' :: '}' :: rest => some (dropBlanks rest)
  | '%' :: '}' :: rest => some rest
  | _ => none

/-- The words of an expression up to the mark that ends it, and what follows the
mark.  Inside brackets no mark ends the expression; `awaited` are the signs that
close the open brackets. -/
def expressionWords (ending : List Char → Option (List Char)) :
    Nat → Option Char → List Sign → List Char → List Lexeme × Option (List Char)
  | 0, _, _, _ => ([], none)
  | _, _, _, [] => ([], none)
  | fuel + 1, before, awaited, c :: rest =>
      match if awaited.isEmpty then ending (c :: rest) else none with
      | some after => ([], some after)
      | none =>
          if isBlank c then expressionWords ending fuel (some c) awaited rest
          else
            match wordAt? before (c :: rest) with
            | none => ([.bad .badSyntax], none)
            | some (.sign sign, after) =>
                let more := fun (awaited : List Sign) =>
                  let (words, rest) := expressionWords ending fuel (some c) awaited after
                  (Lexeme.sign sign :: words, rest)
                match sign.closing? with
                | some closing => more (closing :: awaited)
                | none =>
                    if sign.closes then
                      match awaited with
                      | expected :: outer =>
                          if expected = sign then more outer else ([.bad .badSyntax], none)
                      | [] => ([.bad .badSyntax], none)
                    else more awaited
            | some (word, after) =>
                let (words, rest) := expressionWords ending fuel none awaited after
                (word :: words, rest)

/-! ## Templates -/

/-- The text up to the first mark, and what begins with the mark. -/
def upToMark : List Char → List Char × List Char
  | '{' :: c :: rest =>
      if c == '{' || c == '%' || c == '#' then ([], '{' :: c :: rest)
      else
        let (text, rest) := upToMark (c :: rest)
        ('{' :: text, rest)
  | c :: rest =>
      let (text, rest) := upToMark rest
      (c :: text, rest)
  | [] => ([], [])

/-- What follows the mark that ends a comment. -/
def afterComment? : List Char → Option (List Char)
  | [] => none
  | '-' :: '#' :: '}' :: rest => some (dropBlanks rest)
  | '#' :: '}' :: rest => some rest
  | _ :: rest => afterComment? rest

/-- The sign that may follow a mark, and what follows it. -/
def markSign (s : List Char) : Bool × List Char :=
  match s with
  | '-' :: rest => (true, rest)
  | '+' :: rest => (false, rest)
  | _ => (false, s)

/-- What follows a statement that opens a raw text, with whether it drops the
white space before it; it begins after `{%`. -/
def rawOpening? (s : List Char) : Option (Bool × List Char) := do
  let (drops, rest) := markSign s
  let rest ← dropWord "raw".toList (dropBlanks rest)
  match dropBlanks rest with
  | '-' :: '%' :: '}' :: rest => some (drops, dropBlanks rest)
  | '%' :: '}' :: rest => some (drops, rest)
  | _ => none

/-- What follows a statement that closes a raw text, with whether it drops the
white space before it. -/
def rawClosing? (s : List Char) : Option (Bool × List Char) := do
  let (drops, rest) := markSign (← dropWord ['{', '%'] s)
  let rest ← dropWord "endraw".toList (dropBlanks rest)
  let rest ← afterStatement? (dropBlanks rest)
  return (drops, rest)

/-- A raw text, and what follows the statement that closes it. -/
def rawText? : List Char → Option ((Bool × List Char) × List Char)
  | [] => none
  | c :: rest =>
      match rawClosing? (c :: rest) with
      | some (drops, after) => some ((drops, []), after)
      | none => (rawText? rest).map fun ((drops, text), after) => ((drops, c :: text), after)

/-- A text as a lexeme, without the white space at its end if that is dropped. -/
def dataLexeme (drops : Bool) (text : List Char) : List Lexeme :=
  let text := if drops then trimRight isBlank text else text
  if text.isEmpty then [] else [.data text]

/-- The lexemes of an expression after its opening mark, followed by those of the
rest of the template. -/
def markedLexemes (ending : List Char → Option (List Char)) (last : Lexeme)
    (others : List Char → List Lexeme) (s : List Char) : List Lexeme :=
  match expressionWords ending (s.length + 1) none [] s with
  | (words, some rest) => words ++ last :: others rest
  | (words, none) => words

/-- The lexemes of a template. -/
def lexemesFrom : Nat → List Char → List Lexeme
  | 0, _ => []
  | fuel + 1, s =>
      match upToMark s with
      | (text, '{' :: '#' :: rest) =>
          let (drops, rest) := markSign rest
          let after := match afterComment? rest with
            | some rest => lexemesFrom fuel rest
            | none => if rest.isEmpty then [] else [.bad .badSyntax]
          dataLexeme drops text ++ after
      | (text, '{' :: '{' :: rest) =>
          let (drops, rest) := markSign rest
          dataLexeme drops text ++
            .printBegin :: markedLexemes afterPrint? .printEnd (lexemesFrom fuel) rest
      | (text, '{' :: '%' :: rest) =>
          match rawOpening? rest with
          | some (drops, rest) =>
              let after := match rawText? rest with
                | some ((dropsInside, inside), rest) =>
                    dataLexeme dropsInside inside ++ lexemesFrom fuel rest
                | none => if rest.isEmpty then [] else [.bad .badSyntax]
              dataLexeme drops text ++ after
          | none =>
              let (drops, rest) := markSign rest
              dataLexeme drops text ++
                .statementBegin ::
                  markedLexemes afterStatement? .statementEnd (lexemesFrom fuel) rest
      | (text, _) => dataLexeme false text

/-- The lexemes of a template. -/
def lexemes (source : List Char) : List Lexeme :=
  lexemesFrom (source.length + 1) (normalizeLineEnds source)

end Folio.Template
