import Folio.Template.Escape
import Folio.Template.Format.Layout

/-!
# Values between braces

A text may hold places for values, each between braces: `{name.field!r:>5}`.  A place
names a value, a way from it to a part of it, how the part is made a text, and how
the text is laid out.  Values without a name are taken in order, or by number, but
not both in one text.
-/

namespace Folio.Template

open Text

/-! ## How a value is laid out -/

/-- How a value is laid out between braces. -/
structure FieldSpec where
  filler : Option Char
  alignment : Option Alignment
  sign : Option Char
  zeroUnsigned : Bool
  full : Bool
  zeroFilled : Bool
  width : Nat
  grouping : Option Char
  precision : Option Nat
  kind : Option Char

namespace FieldSpec

/-- The character that fills a field. -/
def fillerOf (f : FieldSpec) : Char :=
  f.filler.getD (if f.zeroFilled then '0' else ' ')

/-- The alignment in a field, where another is usual. -/
def alignmentOr (f : FieldSpec) (usual : Alignment) : Alignment :=
  f.alignment.getD (if f.zeroFilled && usual = .right then .afterSign else usual)

/-- The sign of numbers that are not negative. -/
def positive (f : FieldSpec) : List Char :=
  match f.sign with
  | some '-' => []
  | some c => [c]
  | none => []

/-- Whether digits may be grouped in a notation. -/
def groupsIn (kind : Char) : Option Char → Bool
  | none => true
  | some mark =>
      ['d', 'e', 'f', 'g', 'E', 'F', 'G', '%'].contains kind ||
        (mark == '_' && ['b', 'o', 'x', 'X'].contains kind)

end FieldSpec

/-- The alignment that a sign stands for. -/
def alignmentOf : Char → Option Alignment
  | '<' => some .left
  | '>' => some .right
  | '^' => some .center
  | '=' => some .afterSign
  | _ => none

/-- Takes a character if it stands at the front. -/
def takeChar (c : Char) (s : List Char) : Bool × List Char :=
  match s with
  | d :: rest => if c == d then (true, rest) else (false, s)
  | [] => (false, [])

/-- Reads a filler and an alignment. -/
def alignmentPart (s : List Char) : Option Char × Option Alignment × List Char :=
  match s with
  | c :: a :: rest =>
      match alignmentOf a, alignmentOf c with
      | some alignment, _ => (some c, some alignment, rest)
      | none, some alignment => (none, some alignment, a :: rest)
      | none, none => (none, none, s)
  | [a] =>
      match alignmentOf a with
      | some alignment => (none, some alignment, [])
      | none => (none, none, s)
  | [] => (none, none, [])

/-- Reads a sign. -/
def signPart (s : List Char) : Option Char × List Char :=
  match s with
  | c :: rest => if c == '+' || c == '-' || c == ' ' then (some c, rest) else (none, s)
  | [] => (none, [])

/-- Reads a mark for groups; there may be only one. -/
def groupingPart (s : List Char) : Option (Option Char × List Char) :=
  match s with
  | ',' :: '_' :: _ => none
  | '_' :: ',' :: _ => none
  | ',' :: rest => some (some ',', rest)
  | '_' :: rest => some (some '_', rest)
  | _ => some (none, s)

/-- Reads a precision; there must be digits after its point. -/
def precisionPart (s : List Char) : Option (Option Nat × List Char) :=
  match s with
  | '.' :: rest =>
      match rest.takeWhile Char.isDigit with
      | [] => none
      | digits => some (some (Decimal.digitsValue 10 digits), rest.dropWhile Char.isDigit)
  | _ => some (none, s)

/-- Reads how a value is laid out. -/
def fieldSpec? (s : List Char) : Option FieldSpec := do
  let (filler, alignment, s) := alignmentPart s
  let (sign, s) := signPart s
  let (zeroUnsigned, s) := takeChar 'z' s
  let (full, s) := takeChar '#' s
  let (zeroFilled, s) := if filler.isNone then takeChar '0' s else (false, s)
  let width := Decimal.digitsValue 10 (s.takeWhile Char.isDigit)
  let (grouping, s) ← groupingPart (s.dropWhile Char.isDigit)
  let (precision, s) ← precisionPart s
  let spec := FieldSpec.mk filler alignment sign zeroUnsigned full zeroFilled width grouping
    precision
  match s with
  | [] => return spec none
  | [kind] => return spec (some kind)
  | _ => none

/-! ## Laying out values -/

/-- Fails for a width or a precision beyond all bounds. -/
def FieldSpec.bounded (f : FieldSpec) : Except Fault Unit := do
  if 0x8000000000000000 ≤ max f.width (f.precision.getD 0) then throw .badValue
  roomFor f.width

/-- A text laid out between braces. -/
def textField (f : FieldSpec) (s : List Char) : Except Fault (List Char) := do
  if f.kind.getD 's' ≠ 's' || f.grouping.isSome || f.sign.isSome || f.zeroUnsigned || f.full then
    throw .badValue
  if f.alignmentOr .left = .afterSign then throw .badValue
  let s := match f.precision with
    | some n => s.take n
    | none => s
  return padTo (f.alignmentOr .left) f.width f.fillerOf [] s

/-- A floating-point number laid out between braces. -/
def floatField (f : FieldSpec) (x : Float) : Except Fault (List Char) := do
  if !FieldSpec.groupsIn (f.kind.getD 'g') f.grouping then throw .badValue
  let digits := fun (kind : Char) (x : Float) =>
    fractionText kind (f.precision.getD 6) f.full x
  let body ←
    match f.kind with
    | none => pure (plainFractionText f.precision f.full x)
    | some kind =>
        if ['e', 'f', 'g'].contains kind then pure (digits kind x)
        else if ['E', 'F', 'G'].contains kind then pure (capitals (digits kind.toLower x))
        else if kind == 'n' then pure (digits 'g' x)
        else if kind == '%' then pure (digits 'f' (x * 100.0) ++ ['%'])
        else throw .badValue
  let negative := Number.isNegative (.float x) && !(f.zeroUnsigned && isWrittenZero body)
  let parts : NumberParts :=
    ⟨signText negative f.positive, body.takeWhile Char.isDigit, body.dropWhile Char.isDigit⟩
  return parts.layOut (f.alignmentOr .right) f.width f.fillerOf f.grouping 3

/-- The sign and the digits of an integer in a notation for integers. -/
def integerParts (f : FieldSpec) (kind : Char) (n : Int) : NumberParts :=
  let sign := signText (n < 0) f.positive
  let base := if kind == 'b' then 2 else if kind == 'o' then 8 else 16
  if kind == 'd' || kind == 'n' then ⟨sign, Decimal.natText n.natAbs, []⟩
  else
    let digits := digitsIn base n.natAbs
    ⟨sign ++ (if f.full then ['0', kind] else []),
      if kind == 'X' then capitals digits else digits, []⟩

/-- An integer laid out between braces. -/
def integerField (f : FieldSpec) (n : Int) : Except Fault (List Char) := do
  let kind := f.kind.getD 'd'
  if !FieldSpec.groupsIn kind f.grouping then throw .badValue
  let layOut := fun (p : NumberParts) (size : Nat) =>
    p.layOut (f.alignmentOr .right) f.width f.fillerOf f.grouping size
  if ['b', 'c', 'd', 'o', 'x', 'X', 'n'].contains kind then
    if f.precision.isSome || f.zeroUnsigned then throw .badValue
    if kind == 'c' then
      if f.sign.isSome || f.full then throw .badValue
      return layOut ⟨[], [], ← characterOf n⟩ 3
    else
      return layOut (integerParts f kind n) (if kind == 'd' then 3 else 4)
  else if ['e', 'E', 'f', 'F', 'g', 'G', '%'].contains kind then
    floatField f (← Number.floatOfInt n)
  else throw .badValue
where
  /-- The character of a number. -/
  characterOf (n : Int) : Except Fault (List Char) :=
    if 0 ≤ n && n < 0x110000 then .ok [Char.ofNat n.toNat] else .error .overflow

/-- A value laid out between braces.  Dates are laid out by `dates`; what is neither
a text nor a number has no layout. -/
def fieldText (dates : Value → List Char → Option (Render (List Char))) (spec : List Char)
    (v : Value) : Render (List Char) := do
  if spec.isEmpty then return ← Render.shown v
  let parsed := Render.ofExcept (match fieldSpec? spec with
    | some f => f.bounded.map fun _ => f
    | none => .error .badValue)
  match dates v spec, v with
  | some text, _ => text
  | none, .undefined => throw .wrongType
  | none, _ =>
      match v.chars?, v.number? with
      | some s, _ => do Render.ofExcept (textField (← parsed) s)
      | none, some (.int n) => do Render.ofExcept (integerField (← parsed) n)
      | none, some (.float x) => do Render.ofExcept (floatField (← parsed) x)
      | none, none => throw .wrongType

/-! ## Reading places -/

/-- What stands between braces: the name of a value with a way to a part of it, how it
is made a text, and how that is laid out. -/
structure Place where
  name : List Char
  conversion : Option Char
  spec : List Char

/-- Reads the name in a place, and the character that ends it.  Between brackets any
character may stand. -/
def placeName : Bool → List Char → Option (List Char × Char × List Char)
  | _, [] => none
  | true, c :: rest =>
      (placeName (c != ']') rest).map fun (name, ending, after) => (c :: name, ending, after)
  | false, c :: rest =>
      if c == '{' then none
      else if c == '}' || c == ':' || c == '!' then some ([], c, rest)
      else (placeName (c == '[') rest).map fun (name, ending, after) => (c :: name, ending, after)

/-- The text up to the brace that closes a place, and what follows. -/
def upToBrace : Nat → List Char → Option (List Char × List Char)
  | _, [] => none
  | depth, '}' :: rest =>
      match depth with
      | 0 => some ([], rest)
      | depth + 1 => (upToBrace depth rest).map fun (s, rest) => ('}' :: s, rest)
  | depth, '{' :: rest =>
      (upToBrace (depth + 1) rest).map fun (s, rest) => ('{' :: s, rest)
  | depth, c :: rest => (upToBrace depth rest).map fun (s, rest) => (c :: s, rest)

/-- Reads a place after its first brace. -/
def readPlace (s : List Char) : Option (Place × List Char) := do
  let (name, ending, rest) ← placeName false s
  match ending, rest with
  | '}', _ => return (⟨name, none, []⟩, rest)
  | ':', _ =>
      let (spec, rest) ← upToBrace 0 rest
      return (⟨name, none, spec⟩, rest)
  | _, c :: '}' :: rest => return (⟨name, some c, []⟩, rest)
  | _, c :: ':' :: rest =>
      let (spec, rest) ← upToBrace 0 rest
      return (⟨name, some c, spec⟩, rest)
  | _, _ => none

/-! ## Finding values -/

/-- How values without a name are taken, once it is known: by number, or in order, so
many of them so far. -/
inductive Numbering
  | undecided
  | byNumber
  | inOrder (used : Nat)

/-- Takes a value without a name: of a number, or the next one. -/
def takeValue (given : Given) (number : Option Nat) (n : Numbering) :
    Except Fault (Value × Numbering) :=
  let nth := fun (i : Nat) (n : Numbering) =>
    match given.items[i]? with
    | some v => .ok (v, n)
    | none => .error .noItem
  match number, n with
  | some _, .inOrder _ => .error .badValue
  | some i, _ => nth i .byNumber
  | none, .byNumber => .error .badValue
  | none, .undecided => nth 0 (.inOrder 1)
  | none, .inOrder used => nth used (.inOrder (used + 1))

/-- A step from a value to a part of it: a field, or an item. -/
inductive FieldStep
  | field (name : List Char)
  | item (index : List Char)

/-- Reads the steps after the name of a field. -/
def fieldSteps : Nat → List Char → Option (List FieldStep)
  | 0, _ => none
  | _, [] => some []
  | fuel + 1, '.' :: rest => do
      let isName := fun c : Char => c != '.' && c != '['
      if (rest.takeWhile isName).isEmpty then none
      return .field (rest.takeWhile isName) :: (← fieldSteps fuel (rest.dropWhile isName))
  | fuel + 1, '[' :: rest => do
      if (rest.takeWhile (· != ']')).isEmpty then none
      match rest.dropWhile (· != ']') with
      | _ :: after => return .item (rest.takeWhile (· != ']')) :: (← fieldSteps fuel after)
      | [] => none
  | _, _ => none

/-- The index that a text between brackets is: a number if it is made of digits. -/
def indexOf (s : List Char) : Value :=
  if s.all Char.isDigit then .int (Decimal.digitsValue 10 s) else .text s

/-- The fault of a value that has no such item. -/
def itemFault (v index : Value) : Render Fault := do
  match v with
  | .object id =>
      match ← Render.object? id with
      | some (.mapping _) => return .noKey
      | some (.list _) => return if index.int?.isSome then .noItem else .wrongType
      | _ => return .wrongType
  | .text _ => return if index.int?.isSome then .noItem else .wrongType
  | .tuple _ => return if index.int?.isSome then .noItem else .wrongType
  | _ => return .wrongType

/-- Goes from a value to a part of it. -/
def takeStep (field : Value → List Char → Render (Option Value)) (v : Value) :
    FieldStep → Render Value
  | .field name => do
      match ← field v name with
      | some w => return w
      | none => throw .noAttribute
  | .item i => do
      match ← Render.item? v (indexOf i) with
      | some w => return w
      | none => throw (← itemFault v (indexOf i))

/-- The value that a place names. -/
def placeValue (field : Value → List Char → Render (Option Value)) (given : Given)
    (n : Numbering) (name : List Char) : Render (Value × Numbering) := do
  let isName := fun c : Char => c != '.' && c != '['
  let first := name.takeWhile isName
  let (start, n) ←
    if first.isEmpty then Render.ofExcept (takeValue given none n)
    else if first.all Char.isDigit then
      Render.ofExcept (takeValue given (some (Decimal.digitsValue 10 first)) n)
    else
      match given.named? (String.ofList first) with
      | some v => pure (v, n)
      | none => throw .noKey
  match fieldSteps (name.length + 1) (name.dropWhile isName) with
  | none => throw .badValue
  | some steps => return (← steps.foldlM (takeStep field) start, n)

/-! ## Texts with places -/

/-- What a text is filled with: how fields are found, how dates are laid out, the
values, and whether they are escaped. -/
structure BraceSource where
  field : Value → List Char → Render (Option Value)
  dates : Value → List Char → Option (Render (List Char))
  given : Given
  escapes : Bool

/-- A value laid out in its place.  In markup, what is safe already has no layout. -/
def placeText (source : BraceSource) (spec : List Char) (v : Value) : Render (List Char) := do
  match source.escapes, v with
  | true, .safe s => if spec.isEmpty then return s else throw .badValue
  | true, v => return escape (← fieldText source.dates spec v)
  | false, v => fieldText source.dates spec v

/-- A value made a text, if that is asked for. -/
def converted (v : Value) : Option Char → Render Value
  | none => return v
  | some 's' => return .text (← Render.shown v)
  | some 'r' => return .text (← Render.spelled v)
  | some 'a' => return .text (asciiOnly (← Render.spelled v))
  | some _ => throw .badValue

/-- A text with values in its places.  The layout of a place may have places itself;
`depth` says how deep they may lie. -/
def fillPlaces (source : BraceSource) :
    Nat → Nat → Numbering → List Char → Render (List Char × Numbering)
  | 0, _, n, _ => return ([], n)
  | _, _, n, [] => return ([], n)
  | fuel + 1, depth, n, '{' :: '{' :: rest => do
      let (more, n) ← fillPlaces source fuel depth n rest
      return ('{' :: more, n)
  | fuel + 1, depth, n, '}' :: '}' :: rest => do
      let (more, n) ← fillPlaces source fuel depth n rest
      return ('}' :: more, n)
  | fuel + 1, depth, n, '{' :: rest => do
      match readPlace rest with
      | none => throw .badValue
      | some (place, rest) =>
          let (v, n) ← placeValue source.field source.given n place.name
          let v ← converted v place.conversion
          let (spec, n) ←
            if place.spec.contains '{' then
              match depth with
              | 0 => throw .badValue
              | depth + 1 => fillPlaces source fuel depth n place.spec
            else pure (place.spec, n)
          let piece ← placeText source spec v
          let (more, n) ← fillPlaces source fuel depth n rest
          return (piece ++ more, n)
  | _, _, _, '}' :: _ => throw .badValue
  | fuel + 1, depth, n, c :: rest => do
      let (more, n) ← fillPlaces source fuel depth n rest
      return (c :: more, n)

/-- A text with values between its braces. -/
def braceFormat (source : BraceSource) (template : List Char) : Render (List Char) := do
  return (← fillPlaces source (template.length + 1) 1 .undecided template).1

end Folio.Template
