import Folio.Decimal.Number

/-!
# Data values

The values that data files hold: frontmatter, configuration, states of
components.  A mapping keeps the order in which its keys were first written;
keys are the same if they are equal as values, so that a number and a truth
value can be one key.
-/

namespace Folio.Data

/-- A day of the calendar. -/
structure Date where
  year : Nat
  month : Nat
  day : Nat
  deriving Repr, DecidableEq

/-- A time of a day, with the offset of its time zone in seconds if it has one. -/
structure DateTime where
  date : Date
  hour : Nat
  minute : Nat
  second : Nat
  microsecond : Nat
  offset : Option Int
  deriving Repr, DecidableEq

/-- A data value. -/
inductive Value
  | null
  | bool (b : Bool)
  | int (n : Int)
  | float (x : Float)
  | text (s : String)
  | date (d : Date)
  | dateTime (d : DateTime)
  | bytes (content : List UInt8)
  | list (items : List Value)
  | tuple (items : List Value)
  | set (items : List Value)
  | map (items : List (Value × Value))
  deriving Repr, Inhabited

/-! ## Calendar -/

/-- Whether a year has a leap day. -/
def isLeap (year : Nat) : Bool :=
  (year % 4 == 0 && year % 100 != 0) || year % 400 == 0

/-- The days of a month. -/
def daysIn (year month : Nat) : Nat :=
  if month = 2 then if isLeap year then 29 else 28
  else if month = 4 || month = 6 || month = 9 || month = 11 then 30 else 31

namespace Date

/-- Whether a date is one of the calendar. -/
def isValid (d : Date) : Bool :=
  1 ≤ d.year && d.year ≤ 9999 && 1 ≤ d.month && d.month ≤ 12 && 1 ≤ d.day &&
    d.day ≤ daysIn d.year d.month

/-- A date as year, month and day. -/
def text (d : Date) : List Char :=
  Decimal.padLeft 4 (Decimal.natText d.year) ++
    '-' :: Decimal.padLeft 2 (Decimal.natText d.month) ++
    '-' :: Decimal.padLeft 2 (Decimal.natText d.day)

/-- The days before a date since the beginning of the calendar. -/
def ordinal (d : Date) : Nat :=
  let y := d.year - 1
  y * 365 + y / 4 - y / 100 + y / 400 +
    ((List.range (d.month - 1)).foldl (fun days m => days + daysIn d.year (m + 1)) 0) + d.day

end Date

namespace DateTime

/-- Whether the time is one of a day and the offset is less than a day. -/
def isValid (d : DateTime) : Bool :=
  d.date.isValid && d.hour < 24 && d.minute < 60 && d.second < 60 &&
    match d.offset with
    | some o => o.natAbs < 86400
    | none => true

/-- Two digits. -/
def twoDigits (n : Nat) : List Char :=
  Decimal.padLeft 2 (Decimal.natText n)

/-- An offset as hours and minutes, and seconds if there are any. -/
def offsetText (o : Int) : List Char :=
  let n := o.natAbs
  (if o < 0 then '-' else '+') :: twoDigits (n / 3600) ++ ':' :: twoDigits (n / 60 % 60) ++
    (if n % 60 = 0 then [] else ':' :: twoDigits (n % 60))

/-- A time with `separator` between day and hour. -/
def textWith (separator : Char) (d : DateTime) : List Char :=
  d.date.text ++ separator :: twoDigits d.hour ++ ':' :: twoDigits d.minute ++
    ':' :: twoDigits d.second ++
    (if d.microsecond = 0 then []
      else '.' :: Decimal.padLeft 6 (Decimal.natText d.microsecond)) ++
    (match d.offset with
      | some o => offsetText o
      | none => [])

/-- The seconds before a time since the beginning of the calendar, by its own
clock. -/
def seconds (d : DateTime) : Int :=
  d.date.ordinal * 86400 + d.hour * 3600 + d.minute * 60 + d.second

/-- Whether two times are the same moment; a time without offset is the same as
no time with one. -/
def same (d e : DateTime) : Bool :=
  match d.offset, e.offset with
  | some o, some p => d.seconds - o == e.seconds - p && d.microsecond == e.microsecond
  | none, none => d.seconds == e.seconds && d.microsecond == e.microsecond
  | _, _ => false

end DateTime

/-! ## Equality -/

/-- The exact value of a finite number as a fraction with a power of two below. -/
def floatFraction (x : Float) : Int × Nat :=
  let b := Decimal.binaryOf x
  let sign : Int := if Decimal.isNegative x then -1 else 1
  if 0 ≤ b.exponent then (sign * (b.mantissa * Nat.pow 2 b.exponent.toNat : Nat), 1)
  else (sign * b.mantissa, Nat.pow 2 (-b.exponent).toNat)

/-- Whether an integer and a floating-point number are equal. -/
def intEqFloat (n : Int) (x : Float) : Bool :=
  if x.isNaN || x.isInf then false
  else
    let (num, den) := floatFraction x
    n * den == num

/-- The integer that a truth value stands for. -/
def boolInt (b : Bool) : Int :=
  if b then 1 else 0

namespace Value

/-- Whether two scalar values are equal; numbers and truth values are equal if
they are the same number. -/
def scalarEq : Value → Value → Bool
  | .null, .null => true
  | .bool a, .bool b => a == b
  | .bool a, .int n => boolInt a == n
  | .int n, .bool b => n == boolInt b
  | .bool a, .float x => intEqFloat (boolInt a) x
  | .float x, .bool b => intEqFloat (boolInt b) x
  | .int n, .int m => n == m
  | .int n, .float x => intEqFloat n x
  | .float x, .int n => intEqFloat n x
  | .float x, .float y => x == y
  | .text s, .text t => s == t
  | .date d, .date e => d == e
  | .dateTime d, .dateTime e => d.same e
  | .bytes a, .bytes b => a == b
  | _, _ => false

/-- Puts a value under a key: in the place of an equal key, else at the end. -/
def insert (items : List (Value × Value)) (key value : Value) : List (Value × Value) :=
  if items.any fun item => item.1.scalarEq key then
    items.map fun item => if item.1.scalarEq key then (item.1, value) else item
  else items ++ [(key, value)]

/-- The mapping of a list of keys with values; a repeated key keeps its first
place and takes its last value. -/
def ofItems (items : List (Value × Value)) : List (Value × Value) :=
  items.foldl (fun acc item => insert acc item.1 item.2) []

/-- The value under a key that is a text. -/
def field? (items : List (Value × Value)) (name : String) : Option Value :=
  (items.find? fun item => item.1.scalarEq (.text name)).map (·.2)

/-- Whether a value counts as nothing. -/
def isEmpty : Value → Bool
  | .null => true
  | .bool b => !b
  | .int n => n == 0
  | .float x => x == 0
  | .text s => s.isEmpty
  | .bytes content => content.isEmpty
  | .list items => items.isEmpty
  | .tuple items => items.isEmpty
  | .set items => items.isEmpty
  | .map items => items.isEmpty
  | .date _ => false
  | .dateTime _ => false

end Value

end Folio.Data
