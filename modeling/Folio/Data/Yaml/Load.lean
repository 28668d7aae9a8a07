import Folio.Data.Value
import Folio.Data.Yaml.Node
import Folio.Text.LetterCase

/-!
# Values of YAML

`load` gives the value of a text in YAML.  A node becomes a value by its tag; a
key `<<` merges other mappings into the one it stands in, whose own keys win.

Of several faults in one text, the one of the outermost node counts, and of
those the first: nodes are checked level by level.
-/

namespace Folio.Data.Yaml

open Folio.Text

/-! ## Scalars -/

/-- The text of a node that is to be a scalar; of a mapping, the text under the
key `=`. -/
def scalarText : Node → Except Fault (List Char)
  | .scalar _ content => .ok content
  | .sequence _ _ => .error .malformed
  | .mapping _ items => inItems items
where
  /-- The text under the first key `=` of a mapping. -/
  inItems : List (Node × Node) → Except Fault (List Char)
    | [] => .error .malformed
    | (key, value) :: rest => if key.tag = .value then scalarText value else inItems rest

/-- A number from groups of sixty, the last group counting once. -/
def sixties (groups : List Int) : Int :=
  groups.foldl (fun n g => n * 60 + g) 0

/-- An integer in its spellings. -/
def intOf (content : List Char) : Except Fault Int :=
  let clean := content.filter (· != '_')
  let number := fun (base : Nat) (s : List Char) =>
    match Decimal.readInt? base isBlank s with
    | some n => Except.ok n
    | none => .error Fault.badValue
  match clean with
  | [] => .error .noIndex
  | c :: rest =>
      let sign : Int := if c == '-' then -1 else 1
      let digits := if c == '-' || c == '+' then rest else clean
      let magnitude : Except Fault Int :=
        match digits with
        | [] => .error .noIndex
        | ['0'] => .ok 0
        | '0' :: 'b' :: more => number 2 more
        | '0' :: 'x' :: more => number 16 more
        | '0' :: _ => number 8 digits
        | _ =>
            if digits.contains ':' then ((splitAt ':' digits).mapM (number 10)).map sixties
            else number 10 digits
      magnitude.map (sign * ·)

/-- A floating-point number in its spellings. -/
def floatOf (content : List Char) : Except Fault Float :=
  let clean := lower (content.filter (· != '_'))
  let number := fun (s : List Char) =>
    match Decimal.readFloat? isBlank s with
    | some x => Except.ok x
    | none => .error Fault.badValue
  match clean with
  | [] => .error .noIndex
  | c :: rest =>
      let sign : Float := if c == '-' then -1.0 else 1.0
      let digits := if c == '-' || c == '+' then rest else clean
      if digits = ".inf".toList then .ok (sign * (1.0 / 0.0))
      else if digits = ".nan".toList then .ok (0.0 / 0.0)
      else if digits.contains ':' then
        ((splitAt ':' digits).mapM number).map fun groups =>
          sign * (groups.reverse.foldl
            (fun (acc : Float × Float) g => (acc.1 + g * acc.2, acc.2 * 60.0)) (0.0, 1.0)).1
      else (number digits).map (sign * ·)

/-- A truth value. -/
def boolOf (content : List Char) : Except Fault Bool :=
  let word := String.ofList (lower content)
  if ["yes", "true", "on"].contains word then .ok true
  else if ["no", "false", "off"].contains word then .ok false
  else .error .noKey

/-- The value of decimal digits. -/
def natOf (digits : List Char) : Nat :=
  Decimal.digitsValue 10 digits

/-- The offset of a zone as written, in seconds. -/
def offsetOf : Option (Char × List Char × List Char) → Int
  | none => 0
  | some (sign, hours, minutes) =>
      let n : Int := natOf hours * 3600 + natOf minutes * 60
      if sign == '-' then -n else n

/-- A date or time. -/
def timestampOf (content : List Char) : Except Fault Value :=
  let s := if content.getLast? = some '\n' then content.dropLast else content
  match readTimestamp s with
  | none => .error .noMatch
  | some t =>
      let date : Date := ⟨natOf t.year, natOf t.month, natOf t.day⟩
      match t.time with
      | none => if date.isValid then .ok (.date date) else .error .badValue
      | some time =>
          let micro := natOf ((time.fraction ++ List.replicate 6 '0').take 6)
          let d : DateTime :=
            ⟨date, natOf time.hour, natOf time.minute, natOf time.second, micro,
              time.zone.map offsetOf⟩
          if d.isValid then .ok (.dateTime d) else .error .badValue

/-- The number that a character stands for in base sixty-four. -/
def base64Value (c : Char) : Option Nat :=
  let n := c.toNat
  if 'A' ≤ c && c ≤ 'Z' then some (n - 65)
  else if 'a' ≤ c && c ≤ 'z' then some (n - 71)
  else if c.isDigit then some (n + 4)
  else if c == '+' then some 62
  else if c == '/' then some 63
  else none

/-- Bytes from base sixty-four: `count` characters of the current group of four
were read, `held` are the bits left of them, `pads` the padding marks. -/
def base64From : Nat → Nat → Nat → List Char → Except Fault (List UInt8)
  | count, _, _, [] => if count = 0 then .ok [] else .error .malformed
  | count, held, pads, c :: rest =>
      if c == '=' then
        if 2 ≤ count && 4 ≤ count + pads + 1 then .ok []
        else base64From count held (if 2 ≤ count then pads + 1 else pads) rest
      else
        match base64Value c with
        | none => base64From count held pads rest
        | some v =>
            match count with
            | 0 => base64From 1 v 0 rest
            | 1 => (base64From 2 (v % 16) 0 rest).map (UInt8.ofNat (held * 4 + v / 16) :: ·)
            | 2 => (base64From 3 (v % 4) 0 rest).map (UInt8.ofNat (held * 16 + v / 4) :: ·)
            | _ => (base64From 0 0 0 rest).map (UInt8.ofNat (held * 64 + v) :: ·)

/-- Bytes written in base sixty-four. -/
def binaryOf (content : List Char) : Except Fault (List UInt8) :=
  if content.any fun c => 128 ≤ c.toNat then .error .malformed else base64From 0 0 0 content

/-- The value of a node with the tag of a scalar; none for other tags. -/
def scalarValue (node : Node) : Except Fault (Option Value) := do
  match node.tag with
  | .null =>
      let _ ← scalarText node
      return some .null
  | .bool => return some (.bool (← boolOf (← scalarText node)))
  | .int => return some (.int (← intOf (← scalarText node)))
  | .float => return some (.float (← floatOf (← scalarText node)))
  | .text => return some (.text (String.ofList (← scalarText node)))
  | .timestamp => return some (← timestampOf (← scalarText node))
  | .binary => return some (.bytes (← binaryOf (← scalarText node)))
  | .merge => throw .malformed
  | .value => throw .malformed
  | .other => throw .malformed
  | _ => return none

/-! ## Merging -/

/-- The pairs of a mapping with those merged into it in front. -/
def flatten : Nat → List (Node × Node) → Except Fault (List (Node × Node))
  | 0, _ => .error .malformed
  | fuel + 1, pairs => do
      let merged ← (pairs.filter fun p => p.1.tag = .merge).mapM fun (_, value) =>
        match value with
        | .mapping _ items => flatten fuel items
        | .sequence _ nodes => do
            let parts ← nodes.mapM fun node =>
              match node with
              | .mapping _ items => flatten fuel items
              | _ => throw Fault.malformed
            return parts.reverse.flatten
        | .scalar _ _ => throw Fault.malformed
      let own := (pairs.filter fun p => p.1.tag ≠ .merge).map fun (key, value) =>
        match key with
        | .scalar .value content => (Node.scalar .text content, value)
        | _ => (key, value)
      return merged.flatten ++ own

mutual

/-- How many nodes a tree has. -/
def weight : Node → Nat
  | .scalar _ _ => 1
  | .sequence _ items => weightOfItems items + 1
  | .mapping _ items => weightOfPairs items + 1

/-- How many nodes trees have. -/
def weightOfItems : List Node → Nat
  | [] => 0
  | node :: rest => weight node + weightOfItems rest

/-- How many nodes the trees of pairs have. -/
def weightOfPairs : List (Node × Node) → Nat
  | [] => 0
  | (key, value) :: rest => weight key + weight value + weightOfPairs rest

end

/-! ## Checking -/

/-- The pairs of a node that is to be a mapping. -/
def pairsOf (node : Node) : Except Fault (List (Node × Node)) :=
  match node with
  | .mapping _ items => flatten (weight node + 1) items
  | _ => .error .malformed

/-- The single pairs of a node that is to be a list of them. -/
def entriesOf (node : Node) : Except Fault (List (Node × Node)) :=
  match node with
  | .sequence _ nodes => nodes.mapM fun n =>
      match n with
      | .mapping _ [pair] => .ok pair
      | _ => .error .malformed
  | _ => .error .malformed

/-- Checks the scalars among the parts of a collection; gives its other parts.
The keys of a mapping must be scalars. -/
def openNode (node : Node) : Except Fault (List Node) := do
  let visit := fun (part : Node) => do
    match ← scalarValue part with
    | some _ => return ([] : List Node)
    | none => return [part]
  match node.tag with
  | .sequence =>
      match node with
      | .sequence _ items => return (← items.mapM visit).flatten
      | _ => throw .malformed
  | .mapping | .set =>
      let parts ← (← pairsOf node).mapM fun (key, value) => do
        if (← visit key).isEmpty then visit value else throw .malformed
      return parts.flatten
  | .orderedMap | .pairs =>
      match node with
      | .sequence _ nodes =>
          let parts ← nodes.mapM fun n =>
            match n with
            | .mapping _ [(key, value)] => do return (← visit key) ++ (← visit value)
            | _ => throw Fault.malformed
          return parts.flatten
      | _ => throw .malformed
  | _ => return []

/-- Checks collections level by level. -/
def checkLevels : Nat → List Node → Except Fault Unit
  | 0, _ => .ok ()
  | fuel + 1, level => do
      let next ← level.mapM openNode
      if next.flatten.isEmpty then return () else checkLevels fuel next.flatten

/-! ## Values -/

/-- The value of a node that was checked. -/
def valueOf : Nat → Node → Except Fault Value
  | 0, _ => .error .malformed
  | fuel + 1, node => do
      match ← scalarValue node with
      | some value => return value
      | none =>
          let pair := fun (p : Node × Node) => do
            return (← valueOf fuel p.1, ← valueOf fuel p.2)
          match node.tag, node with
          | .sequence, .sequence _ items => return .list (← items.mapM (valueOf fuel))
          | .mapping, _ => return .map (Value.ofItems (← (← pairsOf node).mapM pair))
          | .set, _ =>
              let items ← (← pairsOf node).mapM pair
              return .set ((Value.ofItems items).map (·.1))
          | .orderedMap, _ | .pairs, _ =>
              let items ← (← entriesOf node).mapM pair
              return .list (items.map fun (key, value) => .tuple [key, value])
          | _, _ => throw .malformed

/-- The value of a text; nothing if it holds no document. -/
def load (text : List Char) : Except Fault Value := do
  match ← Node.ofTokens (← tokens text) with
  | none => return .null
  | some node =>
      match ← scalarValue node with
      | some value => return value
      | none =>
          let bound := weight node + 1
          checkLevels bound [node]
          valueOf bound node

end Folio.Data.Yaml
