/-!
# Shortest decimals

A binary floating-point number stands for every real that rounds to it.
`shortest` gives the decimal with the fewest digits among those reals, and the
nearest to the number if several have as few.  All arithmetic is on natural
numbers.
-/

namespace Folio.Decimal

/-- A positive decimal: `digits · 10 ^ exponent`. -/
structure Numeral where
  digits : Nat
  exponent : Int
  deriving Repr, DecidableEq

/-- A finite positive binary number `mantissa · 2 ^ exponent`; `narrow` if the
next number below is half as far away as the next above. -/
structure Binary where
  mantissa : Nat
  exponent : Int
  narrow : Bool
  deriving Repr, DecidableEq

namespace Binary

/-- `2 ^ e` as a fraction. -/
def powerOfTwo (e : Int) : Nat × Nat :=
  if 0 ≤ e then (Nat.pow 2 e.toNat, 1) else (1, Nat.pow 2 (-e).toNat)

/-- `10 ^ e` as a fraction. -/
def powerOfTen (e : Int) : Nat × Nat :=
  if 0 ≤ e then (Nat.pow 10 e.toNat, 1) else (1, Nat.pow 10 (-e).toNat)

/-- Four times the number and the ends of the reals that round to it, counted in
units of a quarter of the last place. -/
def quarters (b : Binary) : Nat × Nat × Nat :=
  (4 * b.mantissa - (if b.narrow then 1 else 2), 4 * b.mantissa, 4 * b.mantissa + 2)

/-- How many digits stand before the point: the least `e` with `b < 10 ^ e`, from
a first guess upwards. -/
def magnitudeFrom (b : Binary) : Nat → Int → Int
  | 0, e => e
  | fuel + 1, e =>
      let (un, ud) := powerOfTwo b.exponent
      let (tn, td) := powerOfTen e
      if b.mantissa * un * td < tn * ud then e else b.magnitudeFrom fuel (e + 1)

/-- The least `e` with `b < 10 ^ e`. -/
def magnitude (b : Binary) : Int :=
  let bits : Int := Nat.log2 b.mantissa + b.exponent
  b.magnitudeFrom 8 (bits * 30103 / 100000 - 2)

/-- The decimal of a grid `10 ^ e` that rounds to the number and is nearest to
it; an exact tie goes to the even one. -/
def onGrid (b : Binary) (e : Int) : Option Numeral :=
  let (low, mid, high) := b.quarters
  let (un, ud) := powerOfTwo (b.exponent - 2)
  let (tn, td) := powerOfTen e
  let scale := fun n : Nat => n * un * td
  let unit := tn * ud
  let below := scale mid / unit
  let inside := fun d : Nat =>
    let x := d * unit
    if b.mantissa % 2 = 0 then scale low ≤ x && x ≤ scale high
    else scale low < x && x < scale high
  let distanceBelow := scale mid - below * unit
  let distanceAbove := (below + 1) * unit - scale mid
  match inside below && 0 < below, inside (below + 1) with
  | true, true =>
      if distanceBelow < distanceAbove then some ⟨below, e⟩
      else if distanceAbove < distanceBelow then some ⟨below + 1, e⟩
      else if below % 2 = 0 then some ⟨below, e⟩
      else some ⟨below + 1, e⟩
  | true, false => some ⟨below, e⟩
  | false, true => some ⟨below + 1, e⟩
  | false, false => none

/-- The first grid from `count` digits on that has a decimal for the number. -/
def firstGrid (b : Binary) (magnitude : Int) : Nat → Nat → Numeral
  | 0, count => ⟨0, magnitude - count⟩
  | fuel + 1, count =>
      match b.onGrid (magnitude - count) with
      | some d => d
      | none => b.firstGrid magnitude fuel (count + 1)

/-- The shortest decimal that rounds to the number. -/
def shortest (b : Binary) : Numeral :=
  b.firstGrid b.magnitude 18 1

end Binary

end Folio.Decimal
