import Folio.Data.Json
import Folio.Template.Method

/-!
# Values as JSON

The JSON of a value as it can stand in markup: members ordered by name, all but
ASCII escaped, and no character that means something in markup.
-/

namespace Folio.Template.Filter

/-- The escape of a code unit. -/
def unitEscape (n : Nat) : List Char :=
  '\\' :: 'u' :: Text.hexDigits 4 n

/-- A character inside a string, in ASCII and without markup. -/
def asciiEscape (c : Char) : List Char :=
  let n := c.toNat
  if c == '<' || c == '>' || c == '&' || c == '\'' then unitEscape n
  else if n < 128 then Data.Json.escape c
  else if n < 65536 then unitEscape n
  else
    let m := n - 65536
    unitEscape (0xD800 + m / 1024) ++ unitEscape (0xDC00 + m % 1024)

/-- A string between quotation marks. -/
def jsonString (s : List Char) : List Char :=
  '"' :: s.flatMap asciiEscape ++ ['"']

/-- A floating-point number. -/
def jsonFloat (x : Float) : List Char :=
  if x.isNaN then "NaN".toList
  else if x.isInf then (if x < 0 then "-Infinity" else "Infinity").toList
  else Decimal.floatText x

/-- The name of a member, for a key that can be one. -/
def memberName? : Value → Option (List Char)
  | .text s => some s
  | .safe s => some s
  | .null => some "null".toList
  | .bool b => some (if b then "true" else "false").toList
  | .int n => some (Decimal.intText n)
  | .float x => some (jsonFloat x)
  | _ => none

/-- The break before an item: a new line and blanks, if the text is laid out. -/
def breakText (indent : Option (List Char)) (level : Nat) : List Char :=
  match indent with
  | some blanks => '\n' :: (List.replicate level blanks).flatten
  | none => []

/-- Items between brackets. -/
def bracketed (indent : Option (List Char)) (level : Nat) (first last : Char)
    (items : List (List Char)) : List Char :=
  if items.isEmpty then [first, last]
  else
    let mark := if indent.isSome then ',' :: breakText indent (level + 1) else [',', ' ']
    first :: breakText indent (level + 1) ++ Text.joinWith mark items ++ breakText indent level ++
      [last]

/-- The JSON of a value at a level; `fuel` bounds how deep it is written. -/
def jsonText (objects : Array Object) (indent : Option (List Char)) :
    Nat → Nat → Value → Except Fault (List Char)
  | 0, _, _ => .error .badValue
  | fuel + 1, level, v =>
      let inside := jsonText objects indent fuel (level + 1)
      match v with
      | .null => .ok "null".toList
      | .bool b => .ok (if b then "true" else "false").toList
      | .int n => .ok (Decimal.intText n)
      | .float x => .ok (jsonFloat x)
      | .text s => .ok (jsonString s)
      | .safe s => .ok (jsonString s)
      | .tuple items => do
          return bracketed indent level '[' ']' (← items.mapM inside)
      | .object id =>
          match objects[id]? with
          | some (.list items) => do
              return bracketed indent level '[' ']' (← items.mapM inside)
          | some (.group key items) => do
              return bracketed indent level '[' ']' [← inside key, ← inside items]
          | some (.mapping entries) => do
              let sorted ← sortBy (fun a b => Value.less objects a.1 b.1) entries
              let members ← sorted.mapM fun (k, w) => do
                match memberName? k with
                | some name => return jsonString name ++ [':', ' '] ++ (← inside w)
                | none => throw .wrongType
              return bracketed indent level '\x7b' '\x7d' members
          | _ => .error .wrongType
      | _ => .error .wrongType

/-- Applies the filter that gives the JSON of a value. -/
def json (v : Value) (g : Given) : Render Value := do
  let given ← Render.bind g ["indent"] 0
  let indent ←
    match Given.nth given 0 with
    | none => pure none
    | some .null => pure none
    | some w =>
        match w.chars? with
        | some s => pure (some s)
        | none => pure (some (List.replicate (← Render.needInt w).toNat ' '))
  return .safe (← Render.ofExcept (jsonText (← get).objects indent maxShownDepth 0 v))

end Folio.Template.Filter
