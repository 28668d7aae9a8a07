import Folio.Template.Number

/-!
# Comparing values

Equal are numbers of the same size, texts of the same characters, sequences of
equal items and mappings of equal values under equal keys.  Only numbers, texts,
times and sequences of such are ordered.
-/

namespace Folio.Template

/-- The characters of a text, safe or not. -/
def Value.chars? : Value → Option (List Char)
  | .text s => some s
  | .safe s => some s
  | _ => none

/-- How many numbers a range has. -/
def rangeLength (start stop step : Int) : Nat :=
  if 0 < step then ((stop - start + step - 1) / step).toNat
  else if step < 0 then ((start - stop - step - 1) / (-step)).toNat
  else 0

/-- The numbers of a range. -/
def rangeItems (start stop step : Int) : List Int :=
  (List.range (rangeLength start stop step)).map fun (i : Nat) => start + step * i

/-- Whether two lists have as many members, related one by one. -/
def pairwise (related : Value → Value → Bool) : List Value → List Value → Bool
  | [], [] => true
  | a :: as, b :: bs => related a b && pairwise related as bs
  | _, _ => false

/-- Whether two values are equal; `fuel` bounds how deep they are compared. -/
def equalWithin (objects : Array Object) : Nat → Value → Value → Bool
  | 0, _, _ => false
  | fuel + 1, a, b =>
      let same := equalWithin objects fuel
      match a.number?, b.number? with
      | some m, some n => m.equal n
      | some _, none => false
      | none, some _ => false
      | none, none =>
          match a.chars?, b.chars? with
          | some s, some t => s == t
          | some _, none => false
          | none, some _ => false
          | none, none =>
              match a, b with
              | .undefined, .undefined => true
              | .null, .null => true
              | .bytes s, .bytes t => s == t
              | .date d, .date e => d == e
              | .dateTime d, .dateTime e => d.same e
              | .tuple xs, .tuple ys => pairwise same xs ys
              | .set xs, .set ys =>
                  xs.length == ys.length && xs.all fun x => ys.any (same x)
              | .range f l s, .range f' l' s' => rangeItems f l s == rangeItems f' l' s'
              | .object i, .object j =>
                  if i = j then true
                  else
                    match objects[i]?, objects[j]? with
                    | some (.list xs), some (.list ys) => pairwise same xs ys
                    | some (.mapping xs), some (.mapping ys) =>
                        xs.length == ys.length &&
                          xs.all fun x => ys.any fun y => same x.1 y.1 && same x.2 y.2
                    | _, _ => false
              | .view k i, .view l j => k = l && i = j
              | .method r n, .method r' n' => n = n' && same r r'
              | .builtin f, .builtin g => f = g
              | _, _ => false

/-- How deep values are compared. -/
def maxComparedDepth : Nat := 300

/-- Whether two values are equal. -/
def Value.equal (objects : Array Object) (a b : Value) : Bool :=
  equalWithin objects maxComparedDepth a b

/-- Whether a time is before another; times with and without an offset have no
order. -/
def timeLess (d e : Data.DateTime) : Except Fault Bool :=
  let earlier := fun (s t : Int) => s < t || (s = t && d.microsecond < e.microsecond)
  match d.offset, e.offset with
  | some o, some p => .ok (earlier (d.seconds - o) (e.seconds - p))
  | none, none => .ok (earlier d.seconds e.seconds)
  | _, _ => .error .wrongType

/-- Whether a list is before another: at the first difference, or by being shorter. -/
def listLess (equal : Value → Value → Bool) (less : Value → Value → Except Fault Bool) :
    List Value → List Value → Except Fault Bool
  | [], [] => .ok false
  | [], _ :: _ => .ok true
  | _ :: _, [] => .ok false
  | a :: as, b :: bs => if equal a b then listLess equal less as bs else less a b

/-- Whether a value is less than another; `fuel` bounds how deep they are compared. -/
def lessWithin (objects : Array Object) : Nat → Value → Value → Except Fault Bool
  | 0, _, _ => .error .tooDeep
  | fuel + 1, a, b =>
      let less := lessWithin objects fuel
      match a.number?, b.number?, a.chars?, b.chars? with
      | some m, some n, _, _ => .ok (m.less n)
      | _, _, some s, some t => .ok (decide (s < t))
      | _, _, _, _ =>
          match a, b with
          | .undefined, _ => .error .undefined
          | _, .undefined => .error .undefined
          | .bytes s, .bytes t => .ok (decide (s.map (·.toNat) < t.map (·.toNat)))
          | .date d, .date e => .ok (decide (d.ordinal < e.ordinal))
          | .dateTime d, .dateTime e => timeLess d e
          | .tuple xs, .tuple ys => listLess (Value.equal objects) less xs ys
          | .set xs, .set ys =>
              .ok (xs.length < ys.length && xs.all fun x => ys.any (Value.equal objects x))
          | .object i, .object j =>
              match objects[i]?, objects[j]? with
              | some (.list xs), some (.list ys) => listLess (Value.equal objects) less xs ys
              | _, _ => .error .wrongType
          | _, _ => .error .wrongType

/-- Whether a value is less than another. -/
def Value.less (objects : Array Object) (a b : Value) : Except Fault Bool :=
  lessWithin objects maxComparedDepth a b

/-- Sorts by a comparison that may fail: the new item goes before the first that
is greater. -/
def insertSorted {α : Type} (less : α → α → Except Fault Bool) (x : α) :
    List α → Except Fault (List α)
  | [] => .ok [x]
  | y :: rest => do
      if ← less x y then return x :: y :: rest
      else return y :: (← insertSorted less x rest)

/-- Sorts by a comparison that may fail; what is neither less nor greater keeps its
order. -/
def sortBy {α : Type} (less : α → α → Except Fault Bool) (items : List α) :
    Except Fault (List α) :=
  items.foldlM (fun sorted x => insertSorted less x sorted) []

namespace Render

/-- Whether two values are equal. -/
def equal (a b : Value) : Render Bool :=
  return a.equal (← get).objects b

/-- Whether a value is less than another. -/
def less (a b : Value) : Render Bool := do
  ofExcept (a.less (← get).objects b)

/-- Whether a value is less than another or equal to it. -/
def lessEqual (a b : Value) : Render Bool := do
  if ← less a b then return true else equal a b

end Render

end Folio.Template
