import Folio.Template.Compute
import Folio.Template.Method

/-!
# Filters of sequences

Filters that take the items of a value: order them, join them, cut them into
groups.
-/

namespace Folio.Template.Filter

open Text

/-! ## Keys of items -/

/-- A text in small letters, so that case makes no difference. -/
def withoutCase (v : Value) : Value :=
  match v with
  | .text s => .text (lower s)
  | .safe s => .safe (lower s)
  | _ => v

/-- The key of an item: what a path leads to. -/
def keyOf (path : Option Value) (default : Option Value) (minds : Bool) (v : Value) :
    Render Value := do
  let found ←
    match path with
    | none => pure v
    | some .null => pure v
    | some path => Render.follow (Render.pathParts path) default v
  return if minds then found else withoutCase found

/-- The keys of an item by several paths separated by commas. -/
def keysOf (path : Option Value) (minds : Bool) (v : Value) : Render Value := do
  match path.bind Value.chars? with
  | none => return .tuple [← keyOf path none minds v]
  | some s =>
      let keys ← (splitAt ',' s).mapM fun part => keyOf (some (.text part)) none minds v
      return .tuple keys

/-- Items ordered by a key. -/
def ordered (key : Value → Render Value) (descending : Bool) (items : List Value) :
    Render (List Value) := do
  let keyed ← items.mapM fun v => do return (← key v, v)
  let objects := (← get).objects
  Render.ofExcept (sortItems (Value.less objects) descending keyed)

/-! ## Groups -/

/-- The item with the least key, or the greatest; of several the first. -/
def extreme (greatest : Bool) (objects : Array Object) :
    List (Value × Value) → Except Fault (Option (Value × Value))
  | [] => .ok none
  | first :: rest => do
      let best ← rest.foldlM (fun (best : Value × Value) x => do
        let better ← if greatest then best.1.less objects x.1 else x.1.less objects best.1
        return if better then x else best) first
      return some best

/-- Neighbours with equal keys together. -/
def runs (objects : Array Object) : List (Value × Value) → List (Value × List Value)
  | [] => []
  | (key, v) :: rest =>
      match runs objects rest with
      | (next, items) :: others =>
          if key.equal objects next then (key, v :: items) :: others
          else (key, [v]) :: (next, items) :: others
      | [] => [(key, [v])]

/-- A list cut into parts of a size. -/
def batches {α : Type} (size : Nat) : Nat → List α → List (List α)
  | 0, _ => []
  | _, [] => []
  | fuel + 1, items => items.take size :: batches size fuel (items.drop size)

/-- A list cut into so many parts, the first ones longer by one. -/
def slices (count : Nat) (filler : Option Value) (items : List Value) : List (List Value) :=
  let size := items.length / count
  let longer := items.length % count
  (List.range count).map fun i =>
    let start := i * size + min i longer
    let part := (items.drop start).take (if i < longer then size + 1 else size)
    match filler with
    | some v => if i < longer then part else part ++ [v]
    | none => part

/-- A parameter that is not there if it is null. -/
def presentValue (v : Option Value) : Option Value :=
  match v with
  | some .null => none
  | other => other

/-- Items joined by a text. -/
def joinedText (mark : Value) (items : List Value) : Render (List Char) := do
  return joinWith (← Render.shown mark) (← items.mapM Render.shown)

/-! ## The filters -/

/-- The items of a value from its end, if it has an end. -/
def reversedItems (v : Value) : Render (List Value) := do
  match v with
  | .set _ => throw .wrongType
  | .object id =>
      match ← Render.object? id with
      | some (.stream _) => throw .wrongType
      | _ => return (← Render.items v).reverse
  | _ => return (← Render.items v).reverse

/-- Applies a filter that takes one item of a value. -/
def oneItem? (name : String) (v : Value) (g : Given) : Option (Render Value) :=
  let extremeItem := fun (greatest : Bool) => some do
    let given ← Render.bind g ["case_sensitive", "attribute"] 0
    let minds ← Render.flagOr (Given.nth given 0) false
    let items ← Render.items v
    let keyed ← items.mapM fun x => do return (← keyOf (Given.nth given 1) none minds x, x)
    match ← Render.ofExcept (extreme greatest (← get).objects keyed) with
    | some (_, x) => return x
    | none => return Value.undefined
  match name with
  | "first" => some do
      Render.nothing g
      match ← Render.items v with
      | x :: _ => return x
      | [] => return .undefined
  | "last" => some do
      Render.nothing g
      match ← reversedItems v with
      | x :: _ => return x
      | [] => return .undefined
  | "random" => some do
      Render.nothing g
      match ← Render.items v with
      | x :: _ => return x
      | [] => return .undefined
  | "min" => extremeItem false
  | "max" => extremeItem true
  | _ => none

/-- Applies a filter that makes one value of all items. -/
def allItems? (name : String) (v : Value) (g : Given) : Option (Render Value) :=
  let length := some do
    Render.nothing g
    match ← Render.length? v with
    | some n => return Value.int n
    | none => throw .wrongType
  match name with
  | "length" => length
  | "count" => length
  | "list" => some do
      Render.nothing g
      Render.newList (← Render.items v)
  | "join" => some do
      let given ← Render.bind g ["d", "attribute"] 0
      let mark := (Given.nth given 0).getD (.text [])
      let items ← Render.items v
      let items ←
        match presentValue (Given.nth given 1) with
        | none => pure items
        | some path => items.mapM fun x => keyOf (some path) none true x
      return .text (← joinedText mark items)
  | "sum" => some do
      let given ← Render.bind g ["attribute", "start"] 0
      let items ← Render.items v
      let items ←
        match presentValue (Given.nth given 0) with
        | none => pure items
        | some path => items.mapM fun x => keyOf (some path) none true x
      let start := (Given.nth given 1).getD (.int 0)
      if start.chars?.isSome then throw .wrongType
      items.foldlM (fun acc x => Render.compute .add acc x) start
  | "reverse" => some do
      Render.nothing g
      match v with
      | .text s => return .text s.reverse
      | .safe s => return .safe s.reverse
      | _ =>
          match ← Render.items? v with
          | some items => Render.newStream items.reverse
          | none => throw .badFilterArgument
  | "items" => some do
      Render.nothing g
      match v, ← Render.entries? v with
      | .undefined, _ => Render.newStream []
      | _, some entries => Render.newStream (entries.map fun (k, w) => .tuple [k, w])
      | _, none => throw .wrongType
  | _ => none

/-- Applies a filter that orders or groups items. -/
def groupedItems? (name : String) (v : Value) (g : Given) : Option (Render Value) :=
  match name with
  | "sort" => some do
      let given ← Render.bind g ["reverse", "case_sensitive", "attribute"] 0
      let descending ← Render.flagOr (Given.nth given 0) false
      let minds ← Render.flagOr (Given.nth given 1) false
      Render.newList
        (← ordered (keysOf (Given.nth given 2) minds) descending (← Render.items v))
  | "dictsort" => some do
      let given ← Render.bind g ["case_sensitive", "by", "reverse"] 0
      let minds ← Render.flagOr (Given.nth given 0) false
      let key ← Render.textOr (Given.nth given 1) "key".toList
      let descending ← Render.flagOr (Given.nth given 2) false
      let position ←
        if key == "key".toList then pure 0
        else if key == "value".toList then pure 1
        else throw .badFilterArgument
      match v, ← Render.entries? v with
      | .undefined, _ => throw .undefined
      | _, none => throw .noAttribute
      | _, some entries =>
          let pairs := entries.map fun (k, w) => Value.tuple [k, w]
          Render.newList
            (← ordered (keyOf (some (.int position)) none minds) descending pairs)
  | "unique" => some do
      let given ← Render.bind g ["case_sensitive", "attribute"] 0
      let minds ← Render.flagOr (Given.nth given 0) false
      let items ← Render.items v
      let keyed ← items.mapM fun x => do
        let key ← keyOf (Given.nth given 1) none minds x
        Render.requireHashable key
        return (key, x)
      let objects := (← get).objects
      let kept := keyed.foldl (fun (acc : List (Value × Value)) x =>
        if acc.any fun y => y.1.equal objects x.1 then acc else acc ++ [x]) []
      Render.newStream (kept.map (·.2))
  | "groupby" => some do
      let given ← Render.bind g ["attribute", "default", "case_sensitive"] 1
      let path := Given.nth given 0
      let default := presentValue (Given.nth given 1)
      let minds ← Render.flagOr (Given.nth given 2) false
      let sorted ← ordered (keyOf path default minds) false (← Render.items v)
      let keyed ← sorted.mapM fun x => do return (← keyOf path default minds x, x)
      let groups ← (runs (← get).objects keyed).mapM fun (key, items) => do
        let shownKey ←
          match items with
          | x :: _ => keyOf path default true x
          | [] => pure key
        Render.allocate (.group shownKey (← Render.newList items))
      Render.newList groups
  | "batch" => some do
      let given ← Render.bind g ["linecount", "fill_with"] 1
      let size ← Render.intOr (Given.nth given 0) 0
      let items ← Render.items v
      let parts :=
        if size ≤ 0 then (if items.isEmpty then [] else [items])
        else batches size.toNat (items.length + 1) items
      let filled := parts.map fun part =>
        match presentValue (Given.nth given 1) with
        | some w => part ++ List.replicate (size.toNat - part.length) w
        | none => part
      Render.newStream (← filled.mapM Render.newList)
  | "slice" => some do
      let given ← Render.bind g ["slices", "fill_with"] 1
      let count ← Render.intOr (Given.nth given 0) 0
      if count = 0 then throw .zeroDivision
      let items ← Render.items v
      let parts :=
        if count < 0 then [] else slices count.toNat (presentValue (Given.nth given 1)) items
      Render.newStream (← parts.mapM Render.newList)
  | _ => none

/-- Applies a filter of sequences, if it is one. -/
def ofSequence? (name : String) (v : Value) (g : Given) : Option (Render Value) :=
  (oneItem? name v g).or ((allItems? name v g).or (groupedItems? name v g))

end Folio.Template.Filter
