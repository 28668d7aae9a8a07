import Folio.Template.Sequence
import Folio.Template.Show

/-!
# Laying out texts and numbers

A text stands in a field that may be wider than it is; where it stands is its
alignment.  A number has a sign, whole digits, which may be grouped, and a rest; its
field may be filled up with zeros between the sign and the digits.
-/

namespace Folio.Template

open Text

/-- A size that a machine word of 64 bits holds. -/
def wordSized (n : Int) : Except Fault Unit :=
  if n.natAbs < 0x8000000000000000 then .ok () else .error .overflow

/-- A size that there is memory for. -/
def roomFor (n : Int) : Except Fault Unit := do
  wordSized n
  if 0x10000000000 ≤ n then throw .outOfMemory

/-- Where a text stands in a wider field. -/
inductive Alignment
  | left
  | right
  | center
  | afterSign
  deriving Repr, DecidableEq

/-- Fills a text up to a width; of an odd number of fillers, the center has one more
on its right. -/
def padTo (alignment : Alignment) (width : Nat) (filler : Char) (sign body : List Char) :
    List Char :=
  let missing := width - (sign.length + body.length)
  let fill := fun (n : Nat) => List.replicate n filler
  match alignment with
  | .left => sign ++ body ++ fill missing
  | .right => fill missing ++ sign ++ body
  | .afterSign => sign ++ fill missing ++ body
  | .center => fill (missing / 2) ++ sign ++ body ++ fill (missing - missing / 2)

/-- A sign that is always shown, if the number is not negative. -/
def signText (negative : Bool) (positive : List Char) : List Char :=
  if negative then ['-'] else positive

/-- Whether a number has a negative sign. -/
def Number.isNegative : Number → Bool
  | .int n => n < 0
  | .float x => Decimal.isNegative x && !x.isNaN

/-- The digits of a natural number in a base, in lower case. -/
def digitsIn (base n : Nat) : List Char :=
  Nat.toDigits base n

/-- A text in capitals, by ASCII alone. -/
def capitals (s : List Char) : List Char :=
  s.map Char.toUpper

/-- A text with escapes for all characters beyond ASCII. -/
def asciiOnly (s : List Char) : List Char :=
  s.flatMap fun c =>
    if c.toNat < 0x80 then [c]
    else if c.toNat < 0x100 then '\\' :: 'x' :: hexDigits 2 c.toNat
    else if c.toNat < 0x10000 then '\\' :: 'u' :: hexDigits 4 c.toNat
    else '\\' :: 'U' :: hexDigits 8 c.toNat

/-! ## Fractions -/

/-- A number with a point after its whole digits, if it has none. -/
def withPoint (s : List Char) : List Char :=
  if s.contains '.' then s else s.takeWhile Char.isDigit ++ '.' :: s.dropWhile Char.isDigit

/-- The size of a floating-point number in a notation for fractions, in lower case.
In full, a point is always written, and the general notation keeps its zeros. -/
def fractionText (kind : Char) (precision : Nat) (full : Bool) (x : Float) : List Char :=
  if x.isNaN then "nan".toList
  else if x.isInf then "inf".toList
  else
    let text :=
      match kind with
      | 'e' => Number.scientificText precision (.float x)
      | 'g' => Number.generalText precision full (.float x)
      | _ => Number.fixedText precision (.float x)
    if full then withPoint text else text

/-- The size of a floating-point number with at most so many digits, one of them in
the fraction; without a limit, with as many digits as tell it from others. -/
def plainFractionText (precision : Option Nat) (full : Bool) (x : Float) : List Char :=
  if x.isNaN then "nan".toList
  else if x.isInf then "inf".toList
  else
    match precision with
    | none =>
        let text := Decimal.floatText x.abs
        if full then withPoint text else text
    | some count =>
        let exponent := if x == 0 then 0 else (Number.leadingDigits (max count 1) (.float x)).2
        if -4 ≤ exponent && exponent + 1 < max count 1 then
          let text := fractionText 'g' count full x
          if text.contains '.' then text else text ++ ['.', '0']
        else
          let text := Number.scientificText (max count 1 - 1) (.float x)
          if full then withPoint text
          else
            Number.withoutZeros (text.takeWhile (· != 'e')) ++ text.dropWhile (· != 'e')

/-- Whether the size of a number is written with zeros alone. -/
def isWrittenZero (s : List Char) : Bool :=
  (s.takeWhile (· != 'e')).all fun c => c == '0' || c == '.'

/-! ## Groups -/

/-- Digits, last first, in groups with a mark between them, filled up with zeros to a
width. -/
def groupsFrom (mark : Char) (size : Nat) : Nat → List Char → Int → List Char
  | 0, digits, _ => digits
  | fuel + 1, digits, width =>
      let count := min size (max (max digits.length width.toNat) 1)
      let group := digits.take count ++ List.replicate (count - digits.length) '0'
      let rest := digits.drop count
      let width := width - count
      if rest.isEmpty && width ≤ 0 then group
      else group ++ mark :: groupsFrom mark size fuel rest (width - 1)

/-- Digits filled up with zeros to a width, in groups if there is a mark for them. -/
def groupedDigits (mark : Option Char) (size width : Nat) (digits : List Char) : List Char :=
  match mark with
  | none => Decimal.padLeft width digits
  | some mark => (groupsFrom mark size (digits.length + width + 1) digits.reverse width).reverse

/-- The parts of a number in a field: its sign, its whole digits, and the rest. -/
structure NumberParts where
  sign : List Char
  whole : List Char
  rest : List Char

/-- A number laid out in a field, its digits in groups of a size. -/
def NumberParts.layOut (p : NumberParts) (alignment : Alignment) (width : Nat) (filler : Char)
    (mark : Option Char) (size : Nat) : List Char :=
  let zeros :=
    if filler = '0' && alignment = .afterSign then width - (p.sign.length + p.rest.length) else 0
  let whole := if p.whole.isEmpty then [] else groupedDigits mark size zeros p.whole
  padTo alignment width filler p.sign (whole ++ p.rest)

end Folio.Template
