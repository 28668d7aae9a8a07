/-!
# Sets of characters given by ranges

A property of characters that a standard fixes is kept as data: the sorted list
of the ranges of code points that have it.  `CharSet.contains` looks a character
up by bisection, so a look-up costs the logarithm of the number of ranges.
-/

namespace Folio.Text

/-- A set of characters: its maximal ranges of code points, in increasing
order, each written as its first and its last member. -/
structure CharSet where
  ranges : Array (Nat × Nat)

namespace CharSet

/-- Bisection between the indices `lo` and `hi`; `fuel` bounds the number of
halvings and any bound above the logarithm of `hi - lo` gives the same answer. -/
def search (s : CharSet) (code : Nat) : Nat → Nat → Nat → Bool
  | 0, _, _ => false
  | fuel + 1, lo, hi =>
      if hi ≤ lo then false
      else
        let mid := (lo + hi) / 2
        match s.ranges[mid]? with
        | none => false
        | some (first, last) =>
            if code < first then s.search code fuel lo mid
            else if last < code then s.search code fuel (mid + 1) hi
            else true

/-- Whether a character is in the set. -/
def contains (s : CharSet) (c : Char) : Bool :=
  s.search c.toNat 32 0 s.ranges.size

end CharSet

end Folio.Text
