import Folio.Decimal.Shortest
import Folio.Text.WordChar

/-!
# Numbers as text

How integers and floating-point numbers are written and read.  The text of a
floating-point number has the fewest digits that read back; it is positional for
numbers from 0.0001 to below 10¹⁶ and shows that it is no integer.
-/

namespace Folio.Decimal

/-! ## Writing -/

/-- The decimal digits of a natural number. -/
def natText (n : Nat) : List Char :=
  Nat.toDigits 10 n

/-- The digits of an integer after its sign. -/
def intText (n : Int) : List Char :=
  if n < 0 then '-' :: natText n.natAbs else natText n.natAbs

/-- Digits padded with zeros on the left. -/
def padLeft (width : Nat) (digits : List Char) : List Char :=
  List.replicate (width - digits.length) '0' ++ digits

/-- Which decimals are written without an exponent: those with a point between
these numbers of places after the first digit. -/
structure FloatStyle where
  leastPoint : Int
  mostPoint : Int
  exponentDigits : Nat

/-- The style of floating-point numbers in output. -/
def floatStyle : FloatStyle :=
  ⟨-3, 16, 2⟩

/-- Digits without zeros at the end. -/
def stripZeros (digits : List Char) : List Char :=
  (digits.reverse.dropWhile (· == '0')).reverse

/-- A positive decimal written out. -/
def decimalText (style : FloatStyle) (d : Numeral) : List Char :=
  let all := natText d.digits
  let point : Int := all.length + d.exponent
  let digits := stripZeros all
  if style.leastPoint ≤ point && point ≤ style.mostPoint then
    if point ≤ 0 then '0' :: '.' :: List.replicate (-point).toNat '0' ++ digits
    else
      let whole := digits.take point.toNat
      let fraction := digits.drop point.toNat
      whole ++ List.replicate (point.toNat - whole.length) '0' ++ ['.'] ++
        (if fraction.isEmpty then ['0'] else fraction)
  else
    let exponent := point - 1
    digits.take 1 ++ (if digits.length ≤ 1 then [] else '.' :: digits.drop 1) ++ ['e'] ++
      (if exponent < 0 then ['-'] else ['+']) ++
      padLeft style.exponentDigits (natText exponent.natAbs)

/-- The parts of a positive finite number. -/
def binaryOf (x : Float) : Binary :=
  let bits := x.toBits.toNat % Nat.pow 2 63
  let field : Nat := bits / Nat.pow 2 52
  let fraction : Nat := bits % Nat.pow 2 52
  if field = 0 then ⟨fraction, -1074, false⟩
  else ⟨Nat.pow 2 52 + fraction, Int.ofNat field - 1075, fraction == 0 && 1 < field⟩

/-- Whether the sign of a number is negative, zero included. -/
def isNegative (x : Float) : Bool :=
  Nat.pow 2 63 ≤ x.toBits.toNat

/-- The text of a floating-point number. -/
def floatText (x : Float) : List Char :=
  if x.isNaN then "nan".toList
  else
    let sign := if isNegative x then ['-'] else []
    if x.isInf then sign ++ "inf".toList
    else if x == 0 then sign ++ "0.0".toList
    else sign ++ decimalText floatStyle (binaryOf x).shortest

/-! ## Reading -/

/-- The value of a digit of any base up to thirty-six. -/
def digitValue? (c : Char) : Option Nat :=
  if c.isDigit then some (c.toNat - 48)
  else if 'a' ≤ c && c ≤ 'z' then some (c.toNat - 87)
  else if 'A' ≤ c && c ≤ 'Z' then some (c.toNat - 55)
  else
    (Text.decimalDigits.ranges.find? fun r => r.1 ≤ c.toNat && c.toNat ≤ r.2).map fun r =>
      (c.toNat - r.1) % 10

/-- The value of digits in a base. -/
def digitsValue (base : Nat) (digits : List Char) : Nat :=
  digits.foldl (fun n c => n * base + (digitValue? c).getD 0) 0

/-- Whether a text is a run of digits of a base. -/
def areDigits (base : Nat) (s : List Char) : Bool :=
  !s.isEmpty && s.all fun c => (digitValue? c).any (· < base)

/-- The most digits that a number in base ten may be written with. -/
def maxDigits : Nat := 4300

/-- The digits of a number in which single underscores may stand between digits. -/
def joinDigits : List Char → Option (List Char)
  | [] => none
  | [c] => if c == '_' then none else some [c]
  | '_' :: _ => none
  | c :: '_' :: rest => (joinDigits rest).map (c :: ·)
  | c :: rest => (joinDigits rest).map (c :: ·)

/-- Drops the mark that a base may be written with. -/
def dropBaseMark (base : Nat) (s : List Char) : List Char :=
  match s with
  | '0' :: mark :: rest =>
      let m := mark.toLower
      let digits := match rest with
        | '_' :: r => r
        | r => r
      if (base = 16 && m = 'x') || (base = 8 && m = 'o') || (base = 2 && m = 'b') then digits else s
  | _ => s

/-- Reads an integer in a base, with blanks around it, a sign before it and
single underscores in it. -/
def readInt? (base : Nat) (isBlank : Char → Bool) (s : List Char) : Option Int :=
  let body := (s.dropWhile isBlank).reverse.dropWhile isBlank |>.reverse
  let (negative, unsigned) := match body with
    | '-' :: rest => (true, rest)
    | '+' :: rest => (false, rest)
    | rest => (false, rest)
  match joinDigits (dropBaseMark base unsigned) with
  | none => none
  | some digits =>
      if !areDigits base digits then none
      else if base = 10 && maxDigits < digits.length then none
      else
        let n : Int := digitsValue base digits
        some (if negative then -n else n)

/-- The floating-point number nearest to `mantissa · 10 ^ exponent`. -/
def floatOfDecimal (mantissa : Nat) (exponent : Int) : Float :=
  let size : Int := (natText mantissa).length + exponent
  if mantissa = 0 then 0.0
  else if 400 < size then 1.0 / 0.0
  else if size < -400 then 0.0
  else if 0 ≤ exponent then Float.ofScientific mantissa false exponent.toNat
  else Float.ofScientific mantissa true (-exponent).toNat

/-- Reads digits with an optional fraction and exponent. -/
def readDecimal? (s : List Char) : Option Float :=
  let whole := s.takeWhile fun c => c.isDigit || c == '_'
  let afterWhole := s.dropWhile fun c => c.isDigit || c == '_'
  let (fraction, afterFraction) := match afterWhole with
    | '.' :: rest =>
        (rest.takeWhile fun c => c.isDigit || c == '_',
          rest.dropWhile fun c => c.isDigit || c == '_')
    | rest => ([], rest)
  let clean := fun part : List Char => if part.isEmpty then some [] else joinDigits part
  let exponent : Option Int := match afterFraction with
    | [] => some 0
    | e :: rest =>
        if e == 'e' || e == 'E' then
          let (negative, digits) := match rest with
            | '-' :: r => (true, r)
            | '+' :: r => (false, r)
            | r => (false, r)
          match joinDigits digits with
          | some ds =>
              if ds.all Char.isDigit then
                let n : Int := digitsValue 10 ds
                some (if negative then -n else n)
              else none
          | none => none
        else none
  match clean whole, clean fraction, exponent with
  | some w, some f, some e =>
      if w.isEmpty && f.isEmpty then none
      else some (floatOfDecimal (digitsValue 10 (w ++ f)) (e - f.length))
  | _, _, _ => none

/-- Reads a floating-point number, or one of the words for infinity and for no
number, with blanks around it and a sign before it. -/
def readFloat? (isBlank : Char → Bool) (s : List Char) : Option Float :=
  let body := (s.dropWhile isBlank).reverse.dropWhile isBlank |>.reverse
  let (negative, unsigned) := match body with
    | '-' :: rest => (true, rest)
    | '+' :: rest => (false, rest)
    | rest => (false, rest)
  let word := unsigned.map Char.toLower
  let value :=
    if word = "inf".toList || word = "infinity".toList then some (1.0 / 0.0)
    else if word = "nan".toList then some (0.0 / 0.0)
    else readDecimal? unsigned
  value.map fun x => if negative then -x else x

end Folio.Decimal
