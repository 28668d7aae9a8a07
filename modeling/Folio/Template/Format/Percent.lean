import Folio.Template.Escape
import Folio.Template.Format.Layout

/-!
# Values after percent signs

A text may hold places for values, each after a percent sign: `%5.2f`.  The values
are taken in order, or by key from a mapping.
-/

namespace Folio.Template

open Text

/-- What stands after a percent sign.  A width or precision may be taken from the
values. -/
structure PercentSpec where
  key : Option (List Char)
  flags : List Char
  width : Option (Option Nat)
  precision : Option (Option Nat)
  kind : Char

/-- Reads a number, or a star in its place. -/
def starOrNumber (s : List Char) : Option (Option Nat) × List Char :=
  match s with
  | '*' :: rest => (some none, rest)
  | _ =>
      match s.takeWhile Char.isDigit with
      | [] => (none, s)
      | digits => (some (some (Decimal.digitsValue 10 digits)), s.dropWhile Char.isDigit)

/-- Reads a key up to the bracket that closes it; brackets inside come in pairs. -/
def keyUpTo : Nat → List Char → Option (List Char × List Char)
  | _, [] => none
  | 0, ')' :: rest => some ([], rest)
  | depth + 1, ')' :: rest => (keyUpTo depth rest).map fun (s, rest) => (')' :: s, rest)
  | depth, '(' :: rest => (keyUpTo (depth + 1) rest).map fun (s, rest) => ('(' :: s, rest)
  | depth, c :: rest => (keyUpTo depth rest).map fun (s, rest) => (c :: s, rest)

/-- Reads what stands after the key. -/
def percentRest? (key : Option (List Char)) (s : List Char) : Option (PercentSpec × List Char) :=
  let isFlag := fun c : Char => ['-', '+', ' ', '#', '0'].contains c
  let flags := s.takeWhile isFlag
  let (width, s) := starOrNumber (s.dropWhile isFlag)
  let (precision, s) := match s with
    | '.' :: rest =>
        match starOrNumber rest with
        | (none, rest) => (some (some 0), rest)
        | found => found
    | _ => (none, s)
  let s := match s with
    | c :: rest => if c == 'l' || c == 'h' || c == 'L' then rest else s
    | [] => []
  match s with
  | kind :: rest => some (⟨key, flags, width, precision, kind⟩, rest)
  | [] => none

/-- Reads what stands after a percent sign. -/
def percentSpec? (s : List Char) : Option (PercentSpec × List Char) :=
  match s with
  | '(' :: rest => do
      let (key, rest) ← keyUpTo 0 rest
      percentRest? (some key) rest
  | _ => percentRest? none s

/-- The values that a text takes: those still to be used, and the value that keys
are looked up in; and whether they are escaped. -/
structure PercentValues where
  items : List Value
  keyed : Option Value
  escapes : Bool

/-- Takes the next value. -/
def nextValue (values : PercentValues) : Except Fault (Value × PercentValues) :=
  match values.items with
  | v :: rest => .ok (v, { values with items := rest })
  | [] => .error .wrongType

/-- Takes a number that may have to be taken from the values. -/
def takeStar (given : Option (Option Nat)) (values : PercentValues) :
    Except Fault (Option Int × PercentValues) := do
  match given with
  | none => return (none, values)
  | some (some n) => return (some n, values)
  | some none =>
      let (v, values) ← nextValue values
      match v.int? with
      | some n => return (some n, values)
      | none => throw .wrongType

/-- A character, or the one of a number. -/
def characterOf (v : Value) : Except Fault (List Char) :=
  match v.int?, v.chars? with
  | some n, _ => if 0 ≤ n && n < 0x110000 then .ok [Char.ofNat n.toNat] else .error .overflow
  | _, some [c] => .ok [c]
  | _, _ => .error .wrongType

/-- The sign and the digits of an integer after a percent sign. -/
def percentInteger (spec : PercentSpec) (precision : Option Int) (positive : List Char)
    (number : Number) : Except Fault (List Char × List Char) := do
  let atLeast := fun (digits : List Char) => Decimal.padLeft (precision.getD 0).toNat digits
  let kind := spec.kind.toLower
  if kind == 'x' || kind == 'o' then
    match number with
    | .float _ => throw .wrongType
    | .int n =>
        let mark := if spec.flags.contains '#' then ['0', spec.kind] else []
        let digits := atLeast (digitsIn (if kind == 'x' then 16 else 8) n.natAbs)
        return (signText (n < 0) positive ++ mark,
          if spec.kind == 'X' then capitals digits else digits)
  else
    let n ← number.truncate
    return (signText (n < 0) positive, atLeast (Decimal.natText n.natAbs))

/-- The sign and the body of a value after a percent sign. -/
def percentText (escapes : Bool) (spec : PercentSpec) (precision : Option Int) (v : Value) :
    Render (List Char × List Char) := do
  let positive :=
    if spec.flags.contains '+' then ['+'] else if spec.flags.contains ' ' then [' '] else []
  let cut := fun (s : List Char) =>
    match precision with
    | some n => s.take n.toNat
    | none => s
  let spelled := do
    let s ← Render.spelled v
    return if escapes then escape s else s
  let number : Except Fault Number :=
    match v, v.number? with
    | .undefined, _ => .error .wrongType
    | _, some n => .ok n
    | _, none => .error .wrongType
  if spec.kind == 's' then
    return ([], cut (← if escapes then Render.escaped v else Render.shown v))
  else if spec.kind == 'r' then return ([], cut (← spelled))
  else if spec.kind == 'a' then return ([], cut (asciiOnly (← spelled)))
  else if spec.kind == 'c' then
    if escapes then throw .wrongType
    return ([], ← Render.ofExcept (characterOf v))
  else if ['d', 'i', 'u', 'x', 'X', 'o'].contains spec.kind then
    Render.ofExcept (do percentInteger spec precision positive (← number))
  else if ['e', 'E', 'f', 'F', 'g', 'G'].contains spec.kind then
    let x ← Render.ofExcept (do (← number).toFloat)
    let body :=
      fractionText spec.kind.toLower (precision.getD 6).toNat (spec.flags.contains '#') x
    return (signText (Number.isNegative (.float x)) positive,
      if spec.kind.isUpper then capitals body else body)
  else throw .badValue

/-- The values with that of a key as the next one. -/
def valuesAt (key : Option (List Char)) (values : PercentValues) : Render PercentValues := do
  match key, values.keyed with
  | none, _ => return values
  | some _, none => throw .wrongType
  | some key, some source =>
      match ← Render.item? source (.text key) with
      | some v => return { values with items := [v] }
      | none => throw .noKey

/-- One value after a percent sign, and the values left. -/
def percentPiece (spec : PercentSpec) (values : PercentValues) :
    Render (List Char × PercentValues) := do
  let values ← valuesAt spec.key values
  let (width, values) ← Render.ofExcept (takeStar spec.width values)
  let (precision, values) ← Render.ofExcept (takeStar spec.precision values)
  let (v, values) ← Render.ofExcept (nextValue values)
  let (sign, body) ← percentText values.escapes spec precision v
  let size := (width.getD 0).natAbs
  Render.ofExcept (roomFor size)
  let toLeft := spec.flags.contains '-' || (width.getD 0) < 0
  let isNumber := !(['s', 'r', 'a', 'c'].contains spec.kind)
  let text :=
    if toLeft then padTo .left size ' ' sign body
    else if spec.flags.contains '0' && isNumber then padTo .afterSign size '0' sign body
    else padTo .right size ' ' sign body
  return (text, values)

/-- A text with values after its percent signs, and the values left.  Two percent
signs are one. -/
def percentPieces : Nat → List Char → PercentValues → Render (List Char × PercentValues)
  | 0, _, values => return ([], values)
  | _, [], values => return ([], values)
  | fuel + 1, '%' :: '%' :: rest, values => do
      let (more, values) ← percentPieces fuel rest values
      return ('%' :: more, values)
  | fuel + 1, '%' :: rest, values => do
      match percentSpec? rest with
      | none => throw .badValue
      | some (spec, rest) =>
          let (piece, values) ← percentPiece spec values
          let (more, values) ← percentPieces fuel rest values
          return (piece ++ more, values)
  | fuel + 1, c :: rest, values => do
      let (more, values) ← percentPieces fuel rest values
      return (c :: more, values)

/-- Whether keys can be looked up in a value. -/
def hasKeys (v : Value) : Render Bool := do
  match v with
  | .undefined => return true
  | .range _ _ _ => return true
  | .bytes _ => return true
  | .object id =>
      match ← Render.object? id with
      | some (.mapping _) => return true
      | some (.list _) => return true
      | _ => return false
  | _ => return false

/-- A text with values after its percent signs, which are escaped if the text is
markup.  All values of a tuple must be used; one that keys can be looked up in need not
be. -/
def percentFormat (isMarkup : Bool) (template : List Char) (given : Value) :
    Render (List Char) := do
  let isKeyed ← hasKeys given
  let values : PercentValues := match given with
    | .tuple items => ⟨items, none, isMarkup⟩
    | v => ⟨[v], if isKeyed then some v else none, isMarkup⟩
  let (text, left) ← percentPieces (template.length + 1) template values
  if !left.items.isEmpty && !isKeyed then throw .wrongType
  return text

end Folio.Template
