import Folio.Template.Compare
import Folio.Text.Search

/-!
# Sequences and mappings

Items, lengths, membership, indices and slices of values.
-/

namespace Folio.Template

/-- Whether a value can be a key of a mapping. -/
def hashableWithin (objects : Array Object) : Nat → Value → Bool
  | 0, _ => false
  | fuel + 1, v =>
      match v with
      | .tuple items => items.all (hashableWithin objects fuel)
      | .set _ => false
      | .view _ _ => false
      | .object id =>
          match objects[id]? with
          | some (.list _) => false
          | some (.mapping _) => false
          | _ => true
      | _ => true

/-- Puts a value under a key: in the place of an equal key, else at the end. -/
def insertKey (objects : Array Object) (items : List (Value × Value)) (key value : Value) :
    List (Value × Value) :=
  if items.any fun item => item.1.equal objects key then
    items.map fun item => if item.1.equal objects key then (item.1, value) else item
  else items ++ [(key, value)]

/-- The number that a position counted from either end is, if it is in a sequence of
this length. -/
def position? (length : Nat) (index : Int) : Option Nat :=
  let i := if index < 0 then index + length else index
  if 0 ≤ i && i < length then some i.toNat else none

/-! ## Slices -/

/-- A bound of a slice brought into the sequence. -/
def sliceBound (length : Nat) (least most : Int) (given : Option Int) (default : Int) : Int :=
  match given with
  | none => default
  | some b =>
      let b := if b < 0 then b + length else b
      if b < least then least else if most < b then most else b

/-- The positions of a slice, as a range. -/
def sliceRange (length : Nat) (start stop : Option Int) (step : Int) : Int × Int :=
  if 0 < step then
    (sliceBound length 0 length start 0, sliceBound length 0 length stop length)
  else
    (sliceBound length (-1) (length - 1) start (length - 1),
      sliceBound length (-1) (length - 1) stop (-1))

/-- The members of a list at positions. -/
def membersAt {α : Type} (items : List α) (positions : List Int) : List α :=
  let all := items.toArray
  positions.filterMap fun i => all[i.toNat]?

namespace Render

/-! ## Items -/

/-- The items of a value that has some, if it is one.  A stream is empty after
this. -/
def items? (v : Value) : Render (Option (List Value)) := do
  match v with
  | .undefined => return some []
  | .text s => return some (s.map fun c => .text [c])
  | .safe s => return some (s.map fun c => .text [c])
  | .bytes content => return some (content.map fun b => .int b.toNat)
  | .tuple items => return some items
  | .set items => return some items
  | .range start stop step => return some ((rangeItems start stop step).map .int)
  | .view kind id =>
      match ← object? id with
      | some (.mapping items) =>
          match kind with
          | .keys => return some (items.map (·.1))
          | .values => return some (items.map (·.2))
          | .items => return some (items.map fun (k, v) => .tuple [k, v])
      | _ => return some []
  | .object id =>
      match ← object? id with
      | some (.list items) => return some items
      | some (.mapping items) => return some (items.map (·.1))
      | some (.group key members) => return some [key, members]
      | some (.stream items) =>
          replace id (.stream [])
          return some items
      | _ => return none
  | _ => return none

/-- The items of a value. -/
def items (v : Value) : Render (List Value) := do
  match ← items? v with
  | some found => return found
  | none => throw .wrongType

/-- The entries of a value that is a mapping. -/
def entries? (v : Value) : Render (Option (List (Value × Value))) := do
  match v with
  | .object id =>
      match ← object? id with
      | some (.mapping items) => return some items
      | _ => return none
  | _ => return none

/-- The length of a value, if it has one. -/
def length? (v : Value) : Render (Option Nat) := do
  match v with
  | .undefined => return some 0
  | .text s => return some s.length
  | .safe s => return some s.length
  | .bytes content => return some content.length
  | .tuple items => return some items.length
  | .set items => return some items.length
  | .range start stop step => return some (rangeLength start stop step)
  | .view _ id =>
      match ← object? id with
      | some (.mapping items) => return some items.length
      | _ => return some 0
  | .object id =>
      match ← object? id with
      | some (.list items) => return some items.length
      | some (.mapping items) => return some items.length
      | some (.loop state) => return some state.items.length
      | some (.group _ _) => return some 2
      | _ => return none
  | _ => return none

/-- Whether a value counts as true. -/
def isTrue (v : Value) : Render Bool := do
  match v with
  | .null => return false
  | .bool b => return b
  | .int n => return n != 0
  | .float x => return x != 0
  | _ =>
      match ← length? v with
      | some n => return n != 0
      | none => return true

/-! ## Mappings -/

/-- Whether a value can be a key of a mapping. -/
def isHashable (v : Value) : Render Bool :=
  return hashableWithin (← get).objects maxComparedDepth v

/-- Fails unless a value can be a key of a mapping. -/
def requireHashable (v : Value) : Render Unit := do
  if !(← isHashable v) then throw .wrongType

/-- The value under a key. -/
def lookUp (entries : List (Value × Value)) (key : Value) : Render (Option Value) := do
  let objects := (← get).objects
  return (entries.find? fun e => e.1.equal objects key).map (·.2)

/-- A new mapping of keys with values. -/
def newMapping (entries : List (Value × Value)) : Render Value := do
  for (key, _) in entries do requireHashable key
  let objects := (← get).objects
  allocate (.mapping (entries.foldl (fun acc e => insertKey objects acc e.1 e.2) []))

/-- The distinct values of a list, in order of first appearance. -/
def distinct (values : List Value) : Render (List Value) := do
  let objects := (← get).objects
  let kept := values.foldl (fun acc v => if acc.any (v.equal objects) then acc else v :: acc) []
  return kept.reverse

/-! ## Membership -/

/-- Whether a value is equal to one of several. -/
def isAmong (items : List Value) (v : Value) : Render Bool := do
  let objects := (← get).objects
  return items.any fun x => x.equal objects v

/-- Whether a value holds another. -/
def contains (container v : Value) : Render Bool := do
  match container.chars? with
  | some s =>
      match v.chars? with
      | some part => return (Text.find? part s).isSome
      | none => throw .wrongType
  | none =>
      if (← entries? container).isSome then requireHashable v
      match container with
      | .set _ => requireHashable v
      | _ => pure ()
      isAmong (← items container) v

/-! ## Indices -/

/-- The item of a value at an index or under a key, if there is one. -/
def item? (subject index : Value) : Render (Option Value) := do
  let nth := fun (items : List Value) =>
    (index.int?.bind (position? items.length)).bind fun i => items[i]?
  match subject with
  | .undefined => throw .undefined
  | .text s => return nth (s.map fun c => .text [c])
  | .safe s => return nth (s.map fun c => .safe [c])
  | .bytes content => return nth (content.map fun b => .int b.toNat)
  | .tuple items => return nth items
  | .range start stop step => return nth ((rangeItems start stop step).map .int)
  | .object id =>
      match ← object? id with
      | some (.list items) => return nth items
      | some (.group key members) => return nth [key, members]
      | some (.mapping items) =>
          if ← isHashable index then lookUp items index else return none
      | some (.ownBlocks c) =>
          match index.chars? with
          | some name =>
              match (← context c).blocks.lookup (String.ofList name) with
              | some stack => return some (← allocate (.blockCall c stack))
              | none => return none
          | none => return none
      | _ => return none
  | _ => return none

/-- A part of a slice as a number, if it is given. -/
def slicePart (v : Value) : Render (Option Int) := do
  match v with
  | .null => return none
  | _ =>
      match v.int? with
      | some n => return some n
      | none => throw .wrongType

/-- The positions of a slice of a sequence: the first, the end, and the step. -/
def slicePositions (length : Nat) (start stop step : Value) : Render (Int × Int × Int) := do
  let by_ := (← slicePart step).getD 1
  let first ← slicePart start
  let last ← slicePart stop
  if by_ = 0 then throw .badValue
  let (first, last) := sliceRange length first last by_
  return (first, last, by_)

/-- The members of a list in a slice. -/
def sliceMembers {α : Type} (start stop step : Value) (items : List α) : Render (List α) := do
  let (first, last, by_) ← slicePositions items.length start stop step
  return membersAt items (rangeItems first last by_)

/-- A slice of a value. -/
def slice (subject start stop step : Value) : Render Value := do
  match subject with
  | .undefined => throw .undefined
  | .text s => return .text (← sliceMembers start stop step s)
  | .safe s => return .safe (← sliceMembers start stop step s)
  | .bytes content => return .bytes (← sliceMembers start stop step content)
  | .tuple items => return .tuple (← sliceMembers start stop step items)
  | .range f l s =>
      let (first, last, by_) ← slicePositions (rangeLength f l s) start stop step
      return .range (f + s * first) (f + s * last) (s * by_)
  | .object id =>
      match ← object? id with
      | some (.list items) => newList (← sliceMembers start stop step items)
      | _ => throw .wrongType
  | _ => throw .wrongType

end Render

end Folio.Template
