import Folio.Template.Value

/-!
# Arithmetic of templates

Integers are exact and floating-point numbers are not; an operation on both is
one on floating-point numbers.  Division gives a floating-point number, `//` the
floor of the quotient, and the remainder has the sign of the divisor.
-/

namespace Folio.Template

/-- A number: a truth value counts as one. -/
inductive Number
  | int (n : Int)
  | float (x : Float)

/-- The number that a value is. -/
def Value.number? : Value → Option Number
  | .bool b => some (.int (if b then 1 else 0))
  | .int n => some (.int n)
  | .float x => some (.float x)
  | _ => none

/-- The integer that a value is. -/
def Value.int? : Value → Option Int
  | .bool b => some (if b then 1 else 0)
  | .int n => some n
  | _ => none

namespace Number

/-- A number as a value. -/
def value : Number → Value
  | .int n => .int n
  | .float x => .float x

/-- The floating-point number nearest to an integer. -/
def floatOfInt (n : Int) : Except Fault Float :=
  let x := Float.ofInt n
  if x.isInf then .error .overflow else .ok x

/-- A number as a floating-point number. -/
def toFloat : Number → Except Fault Float
  | .int n => floatOfInt n
  | .float x => .ok x

/-! ## Exact fractions -/

/-- The fraction that a finite number is. -/
def fraction : Number → Int × Nat
  | .int n => (n, 1)
  | .float x => Data.floatFraction x

/-- The floating-point number nearest to a fraction that is not negative. -/
def floatOfRatio (num den : Nat) : Float :=
  if num = 0 || den = 0 then 0.0
  else
    let shift : Int := 66 + (den.log2 : Int) - num.log2
    let (n, d) :=
      if 0 ≤ shift then (num * Nat.pow 2 shift.toNat, den)
      else (num, den * Nat.pow 2 (-shift).toNat)
    let quotient := n / d
    let sticky := if n % d = 0 then quotient * 2 else quotient * 2 + 1
    let kept := sticky / Nat.pow 2 12
    let lost := sticky % Nat.pow 2 12
    let whole := if lost = 0 then kept * 2 else kept * 2 + 1
    (Float.ofNat whole).scaleB (10 - shift)

/-- The floating-point number nearest to a fraction. -/
def floatOfSignedRatio (num : Int) (den : Nat) : Float :=
  let x := floatOfRatio num.natAbs den
  if num < 0 then -x else x

/-- A quotient rounded to the nearest integer; a half goes to the even one. -/
def roundRatio (num den : Nat) : Nat :=
  let q := num / den
  let r := num % den
  if den < 2 * r || (2 * r = den && q % 2 = 1) then q + 1 else q

/-! ## Operations -/

/-- An operation that is exact on integers. -/
def compute (exact : Int → Int → Int) (rounded : Float → Float → Float) :
    Number → Number → Except Fault Number
  | .int a, .int b => .ok (.int (exact a b))
  | a, b => do return .float (rounded (← a.toFloat) (← b.toFloat))

/-- The quotient of two numbers. -/
def divide (a b : Number) : Except Fault Number := do
  match a, b with
  | .int m, .int n =>
      if n = 0 then throw .zeroDivision
      let x :=
        if m = 0 && n < 0 then -0.0
        else floatOfSignedRatio (if n < 0 then -m else m) n.natAbs
      if x.isInf then throw .overflow else return .float x
  | _, _ =>
      let y ← b.toFloat
      if y == 0 then throw .zeroDivision
      return .float ((← a.toFloat) / y)

/-- Whether a number is finite. -/
def isFinite (x : Float) : Bool :=
  !x.isNaN && !x.isInf

/-- The floor of a quotient of finite numbers, and the remainder. -/
def floatDivMod (x y : Float) : Float × Float :=
  let (a, b) := Data.floatFraction x
  let (c, d) := Data.floatFraction y
  let num := a * d
  let den := c * b
  let remainder := Int.fmod num den
  let negative := Decimal.isNegative y
  let rest := if remainder = 0 then (if negative then -0.0 else 0.0)
    else floatOfSignedRatio remainder (b * d)
  let quotient := Int.fdiv num den
  let whole :=
    if quotient = 0 then (if Decimal.isNegative x != negative then -0.0 else 0.0)
    else Float.ofInt quotient
  (whole, rest)

/-- The floor of a quotient, and the remainder. -/
def divMod (a b : Number) : Except Fault (Number × Number) := do
  match a, b with
  | .int m, .int n =>
      if n = 0 then throw .zeroDivision
      return (.int (Int.fdiv m n), .int (Int.fmod m n))
  | _, _ =>
      let x ← a.toFloat
      let y ← b.toFloat
      if y == 0 then throw .zeroDivision
      if isFinite x && isFinite y then
        let (q, r) := floatDivMod x y
        return (.float q, .float r)
      else if isFinite x && y.isInf then
        if x == 0 || Decimal.isNegative x == Decimal.isNegative y then return (.float 0.0, .float x)
        else return (.float (-1.0), .float y)
      else return (.float (0.0 / 0.0), .float (0.0 / 0.0))

/-- A power. -/
def power (a b : Number) : Except Fault Number := do
  match a, b with
  | .int m, .int n =>
      if 0 ≤ n then return .int (Int.pow m n.toNat)
      else if m = 0 then throw .zeroDivision
      else return .float ((← floatOfInt m) ^ (← floatOfInt n))
  | _, _ =>
      let x ← a.toFloat
      let y ← b.toFloat
      if x == 0 && y < 0 then throw .zeroDivision
      let z := x ^ y
      if z.isInf && isFinite x && isFinite y then throw .overflow
      if z.isNaN && !x.isNaN && !y.isNaN then throw .wrongType
      return .float z

/-- A number with its sign changed. -/
def negate : Number → Number
  | .int n => .int (-n)
  | .float x => .float (-x)

/-- The size of a number without its sign. -/
def abs : Number → Number
  | .int n => .int n.natAbs
  | .float x => .float x.abs

/-! ## Order -/

/-- Whether two numbers are equal. -/
def equal : Number → Number → Bool
  | .int a, .int b => a == b
  | .int a, .float y => Data.intEqFloat a y
  | .float x, .int b => Data.intEqFloat b x
  | .float x, .float y => x == y

/-- Whether a number is less than another. -/
def less (a b : Number) : Bool :=
  match a, b with
  | .int m, .int n => m < n
  | .float x, .float y => x < y
  | .int m, .float y =>
      if y.isNaN then false
      else if y.isInf then 0 < y
      else
        let (num, den) := Data.floatFraction y
        m * den < num
  | .float x, .int n =>
      if x.isNaN then false
      else if x.isInf then x < 0
      else
        let (num, den) := Data.floatFraction x
        num < n * den

/-! ## Rounding -/

/-- A number cut to an integer towards zero. -/
def truncate : Number → Except Fault Int
  | .int n => .ok n
  | .float x =>
      if x.isNaN then .error .badValue
      else if x.isInf then .error .overflow
      else
        let (num, den) := Data.floatFraction x
        .ok (Int.tdiv num den)

/-- The greatest integer that is not above a number, or the least that is not
below it. -/
def toInt (up : Bool) : Number → Except Fault Int
  | .int n => .ok n
  | .float x =>
      if x.isNaN then .error .badValue
      else if x.isInf then .error .overflow
      else
        let (num, den) := Data.floatFraction x
        .ok (if up then -(Int.fdiv (-num) den) else Int.fdiv num den)

/-- A number rounded to so many decimal places; a half goes to the even digit. -/
def round (places : Int) : Number → Except Fault Number
  | .int n =>
      if 0 ≤ places then .ok (.int n)
      else
        let unit := Nat.pow 10 (-places).toNat
        let size : Int := roundRatio n.natAbs unit * unit
        .ok (.int (if n < 0 then -size else size))
  | .float x =>
      if !isFinite x then .ok (.float x)
      else
        let (num, den) := Data.floatFraction x
        let digits :=
          if 0 ≤ places then roundRatio (num.natAbs * Nat.pow 10 places.toNat) den
          else roundRatio num.natAbs (den * Nat.pow 10 (-places).toNat)
        let size := Decimal.floatOfDecimal digits (-places)
        let y := if Decimal.isNegative x then -size else size
        if y.isInf then .error .overflow else .ok (.float y)

/-! ## Decimal notation -/

/-- The digits of a natural number with a point before the last `places`. -/
def pointed (digits places : Nat) : List Char :=
  let all := Decimal.padLeft (places + 1) (Decimal.natText digits)
  let whole := all.take (all.length - places)
  if places = 0 then whole else whole ++ '.' :: all.drop (all.length - places)

/-- The size of a finite number with so many decimal places. -/
def fixedText (places : Nat) (x : Number) : List Char :=
  let (num, den) := x.fraction
  pointed (roundRatio (num.natAbs * Nat.pow 10 places) den) places

/-- The least `e` from a start on with `num / den < 10 ^ e`, at most `fuel` steps
away. -/
def decimalSize (num den : Nat) : Nat → Int → Int
  | 0, e => e
  | fuel + 1, e =>
      let (p, q) := Decimal.Binary.powerOfTen e
      if num * q < den * p then e else decimalSize num den fuel (e + 1)

/-- So many digits of a finite number that is not zero, and the power of ten of
the first. -/
def leadingDigits (count : Nat) (x : Number) : Nat × Int :=
  let (num, den) := x.fraction
  let n := num.natAbs
  let start : Int := ((n.log2 : Int) - den.log2 - 1) * 3 / 10 - 2
  let first := decimalSize n den 700 start - 1
  let places : Int := count - 1 - first
  let digits :=
    if 0 ≤ places then roundRatio (n * Nat.pow 10 places.toNat) den
    else roundRatio n (den * Nat.pow 10 (-places).toNat)
  if Nat.pow 10 count ≤ digits then (digits / 10, first + 1) else (digits, first)

/-- The size of a finite number with one digit before the point and so many after
it, and an exponent. -/
def scientificText (places : Nat) (x : Number) : List Char :=
  let (digits, exponent) := if x.fraction.1 = 0 then (0, 0) else leadingDigits (places + 1) x
  pointed digits places ++ 'e' :: (if exponent < 0 then '-' else '+') ::
    Decimal.padLeft 2 (Decimal.natText exponent.natAbs)

/-- A text without zeros at the end of its fraction. -/
def withoutZeros (s : List Char) : List Char :=
  if s.contains '.' then
    match Decimal.stripZeros s with
    | t => if t.getLast? = some '.' then t.dropLast else t
  else s

/-- The size of a finite number with at most so many digits; in full, zeros at the end
of the fraction are kept. -/
def generalText (count : Nat) (full : Bool) (x : Number) : List Char :=
  let count := max count 1
  let trimmed := fun (s : List Char) => if full then s else withoutZeros s
  let exponent := if x.fraction.1 = 0 then 0 else (leadingDigits count x).2
  if -4 ≤ exponent && exponent < count then
    trimmed (fixedText (count - 1 - exponent).toNat x)
  else
    let s := scientificText (count - 1) x
    trimmed (s.takeWhile (· != 'e')) ++ s.dropWhile (· != 'e')

end Number

end Folio.Template
