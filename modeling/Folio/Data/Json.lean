import Folio.Data.Value
import Folio.Text.Printable

/-!
# JSON

`Json.read` reads a text in JSON.  Beside the standard it accepts the words
`NaN`, `Infinity` and `-Infinity`; of a repeated key the last value counts.
`Json.write` writes texts, lists and objects with an indentation of two spaces,
in which only quotation marks, backslashes and controls are escaped.
-/

namespace Folio.Data.Json

/-- Why a text is no JSON: its form, or an integer with too many digits. -/
inductive Fault
  | malformed
  | tooManyDigits
  deriving Repr, DecidableEq

/-- White space between tokens. -/
def isSpace (c : Char) : Bool :=
  c == ' ' || c == '\t' || c == '\n' || c == '\r'

/-- Drops white space. -/
def skip (s : List Char) : List Char :=
  s.dropWhile isSpace

/-- The value of four hexadecimal digits, and what follows them. -/
def hex4 : List Char → Option (Nat × List Char)
  | a :: b :: c :: d :: rest =>
      if Decimal.areDigits 16 [a, b, c, d] && [a, b, c, d].all (·.toNat < 128) then
        some (Decimal.digitsValue 16 [a, b, c, d], rest)
      else none
  | _ => none

/-- The character of a code unit, the rest of the text completing a pair of
surrogates; a surrogate without its partner is the replacement character. -/
def codeUnit (n : Nat) (rest : List Char) : Char × List Char :=
  if 0xD800 ≤ n && n < 0xDC00 then
    match rest with
    | '\\' :: 'u' :: more =>
        match hex4 more with
        | some (m, after) =>
            if 0xDC00 ≤ m && m < 0xE000 then
              (Char.ofNat (0x10000 + (n - 0xD800) * 0x400 + (m - 0xDC00)), after)
            else (Char.ofNat 0xFFFD, rest)
        | none => (Char.ofNat 0xFFFD, rest)
    | _ => (Char.ofNat 0xFFFD, rest)
  else if 0xDC00 ≤ n && n < 0xE000 then (Char.ofNat 0xFFFD, rest)
  else (Char.ofNat n, rest)

/-- The character that a backslash and `c` stand for. -/
def shortEscape (c : Char) : Option Char :=
  match c with
  | '"' => some '"'
  | '\\' => some '\\'
  | '/' => some '/'
  | 'b' => some '\x08'
  | 'f' => some '\x0c'
  | 'n' => some '\n'
  | 'r' => some '\r'
  | 't' => some '\t'
  | _ => none

/-- Reads the rest of a string after its opening mark. -/
def readString : Nat → List Char → Except Fault (List Char × List Char)
  | 0, _ => .error .malformed
  | fuel + 1, s =>
      match s with
      | [] => .error .malformed
      | '"' :: rest => .ok ([], rest)
      | '\\' :: 'u' :: rest =>
          match hex4 rest with
          | none => .error .malformed
          | some (n, after) => do
              let (c, after) := codeUnit n after
              let (tail, rest') ← readString fuel after
              return (c :: tail, rest')
      | '\\' :: c :: rest =>
          match shortEscape c with
          | none => .error .malformed
          | some d => do
              let (tail, rest') ← readString fuel rest
              return (d :: tail, rest')
      | c :: rest =>
          if c.toNat < 32 || c == '\\' then .error .malformed
          else do
            let (tail, rest') ← readString fuel rest
            return (c :: tail, rest')

/-- Reads the digits and signs of an exponent. -/
def readExponent (s : List Char) : Option (Int × List Char) :=
  match s with
  | e :: rest =>
      if e == 'e' || e == 'E' then
        let (negative, digits) := match rest with
          | '-' :: r => (true, r)
          | '+' :: r => (false, r)
          | r => (false, r)
        let ds := digits.takeWhile Char.isDigit
        if ds.isEmpty then none
        else
          let n : Int := Decimal.digitsValue 10 ds
          some (if negative then -n else n, digits.dropWhile Char.isDigit)
      else none
  | [] => none

/-- Reads a fraction: a point and digits. -/
def readFraction (s : List Char) : Option (List Char × List Char) :=
  match s with
  | '.' :: rest =>
      let ds := rest.takeWhile Char.isDigit
      if ds.isEmpty then none else some (ds, rest.dropWhile Char.isDigit)
  | _ => none

/-- Reads a number without its sign. -/
def readNumber (negative : Bool) (s : List Char) : Except Fault (Value × List Char) :=
  let digits := match s with
    | '0' :: _ => ['0']
    | _ => s.takeWhile Char.isDigit
  if digits.isEmpty then .error .malformed
  else
    let afterWhole := s.drop digits.length
    let fraction := readFraction afterWhole
    let afterFraction := (fraction.map (·.2)).getD afterWhole
    let exponent := readExponent afterFraction
    let rest := (exponent.map (·.2)).getD afterFraction
    match fraction, exponent with
    | none, none =>
        if Decimal.maxDigits < digits.length then .error .tooManyDigits
        else
          let n : Int := Decimal.digitsValue 10 digits
          .ok (.int (if negative then -n else n), rest)
    | _, _ =>
        let ds := (fraction.map (·.1)).getD []
        let e := (exponent.map (·.1)).getD 0
        let x := Decimal.floatOfDecimal (Decimal.digitsValue 10 (digits ++ ds)) (e - ds.length)
        .ok (.float (if negative then -x else x), rest)

/-- The words that stand for values. -/
def words : List (String × Value) :=
  [("null", .null), ("true", .bool true), ("false", .bool false), ("NaN", .float (0.0 / 0.0)),
    ("Infinity", .float (1.0 / 0.0)), ("-Infinity", .float (-1.0 / 0.0))]

/-- Reads one of the words that stand for values. -/
def readWord (s : List Char) : Option (Value × List Char) :=
  words.findSome? fun (word, value) =>
    if word.toList.isPrefixOf s then some (value, s.drop word.length) else none

mutual

/-- Reads a value at the start of a text; `fuel` bounds the nesting and length. -/
def readValue : Nat → List Char → Except Fault (Value × List Char)
  | 0, _ => .error .malformed
  | fuel + 1, s =>
      match s with
      | '"' :: rest => do
          let (chars, rest') ← readString (rest.length + 1) rest
          return (.text (String.ofList chars), rest')
      | '{' :: rest =>
          match skip rest with
          | '}' :: rest' => .ok (.map [], rest')
          | rest' => do
              let (items, after) ← readMembers fuel rest'
              return (.map (Value.ofItems items), after)
      | '[' :: rest =>
          match skip rest with
          | ']' :: rest' => .ok (.list [], rest')
          | rest' => do
              let (items, after) ← readItems fuel rest'
              return (.list items, after)
      | _ =>
          match readWord s with
          | some found => .ok found
          | none =>
              match s with
              | '-' :: rest => readNumber true rest
              | _ => readNumber false s

/-- Reads the items of a list up to and with its closing bracket. -/
def readItems : Nat → List Char → Except Fault (List Value × List Char)
  | 0, _ => .error .malformed
  | fuel + 1, s => do
      let (value, rest) ← readValue fuel s
      match skip rest with
      | ']' :: after => return ([value], after)
      | ',' :: after => do
          let (values, after') ← readItems fuel (skip after)
          return (value :: values, after')
      | _ => throw .malformed

/-- Reads the members of an object up to and with its closing brace. -/
def readMembers : Nat → List Char → Except Fault (List (Value × Value) × List Char)
  | 0, _ => .error .malformed
  | fuel + 1, s =>
      match s with
      | '"' :: rest => do
          let (chars, rest) ← readString (rest.length + 1) rest
          let key := Value.text (String.ofList chars)
          match skip rest with
          | ':' :: rest => do
              let (value, rest) ← readValue fuel (skip rest)
              match skip rest with
              | '}' :: after => return ([(key, value)], after)
              | ',' :: after => do
                  let (items, after') ← readMembers fuel (skip after)
                  return ((key, value) :: items, after')
              | _ => throw .malformed
          | _ => throw .malformed
      | _ => .error .malformed

end

/-- Reads a text that is one value. -/
def read (text : List Char) : Except Fault Value := do
  let s := skip text
  let (value, rest) ← readValue (2 * s.length + 2) s
  if (skip rest).isEmpty then return value else throw .malformed

/-! ## Writing -/

/-- What is written: texts, nothing, lists and objects. -/
inductive Document
  | null
  | text (s : String)
  | list (items : List Document)
  | object (members : List (String × Document))
  deriving Repr, Inhabited

/-- One character inside a string. -/
def escape (c : Char) : List Char :=
  if c == '"' || c == '\\' then ['\\', c]
  else if c == '\n' then ['\\', 'n']
  else if c == '\r' then ['\\', 'r']
  else if c == '\t' then ['\\', 't']
  else if c == '\x08' then ['\\', 'b']
  else if c == '\x0c' then ['\\', 'f']
  else if c.toNat < 32 then '\\' :: 'u' :: Text.hexDigits 4 c.toNat
  else [c]

/-- A string between quotation marks. -/
def writeString (s : String) : List Char :=
  '"' :: s.toList.flatMap escape ++ ['"']

/-- A line end and the indentation of a level. -/
def newLine (level : Nat) : List Char :=
  '\n' :: List.replicate (2 * level) ' '

mutual

/-- Writes a document whose lines are indented by `level`. -/
def writeAt (level : Nat) : Document → List Char
  | .null => "null".toList
  | .text s => writeString s
  | .list [] => ['[', ']']
  | .list (item :: items) =>
      '[' :: newLine (level + 1) ++ writeAt (level + 1) item ++ writeItems (level + 1) items ++
        newLine level ++ [']']
  | .object [] => ['{', '}']
  | .object ((name, value) :: members) =>
      '{' :: newLine (level + 1) ++ writeString name ++ [':', ' '] ++ writeAt (level + 1) value ++
        writeMembers (level + 1) members ++ newLine level ++ ['}']

/-- Writes the items after the first. -/
def writeItems (level : Nat) : List Document → List Char
  | [] => []
  | item :: items => ',' :: newLine level ++ writeAt level item ++ writeItems level items

/-- Writes the members after the first. -/
def writeMembers (level : Nat) : List (String × Document) → List Char
  | [] => []
  | (name, value) :: members =>
      ',' :: newLine level ++ writeString name ++ [':', ' '] ++ writeAt level value ++
        writeMembers level members

end

/-- A document with a line end after it. -/
def write (d : Document) : List Char :=
  writeAt 0 d ++ ['\n']

end Folio.Data.Json
