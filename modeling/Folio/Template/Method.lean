import Folio.Template.Format.Brace
import Folio.Template.Given
import Folio.Template.Time
import Folio.Text.LetterCase
import Folio.Text.Numeral

/-!
# Methods of values

What the methods of texts, lists, mappings, dates and of the objects that a
template makes do.
-/

namespace Folio.Template

open Text

/-! ## Texts -/

/-- A text in the middle of a wider field. -/
def centered (width : Int) (filler : Char) (s : List Char) : List Char :=
  let width := width.toNat
  let missing := width - s.length
  let before := missing / 2 + (if missing % 2 = 1 && width % 2 = 1 then 1 else 0)
  List.replicate before filler ++ s ++ List.replicate (missing - before) filler

/-- Tabs filled with blanks up to the next column that is a multiple of `size`. -/
def expandTabs (size : Nat) : Nat → List Char → List Char
  | _, [] => []
  | column, '\t' :: rest =>
      let count := if size = 0 then 0 else size - column % size
      List.replicate count ' ' ++ expandTabs size (column + count) rest
  | column, c :: rest =>
      c :: expandTabs size (if c == '\n' || c == '\r' then 0 else column + 1) rest

/-- Whether a text has letters with case, all of them changed by none of `change`. -/
def allCased (change : Char → List Char) (s : List Char) : Bool :=
  s.any isCased && s.all fun c => change c == [c] || !isCased c

/-- Where a text may be cut, counted from its end if the number is negative. -/
def cutPosition (length : Nat) (n : Int) : Nat :=
  if n < 0 then (n + length).toNat else n.toNat

/-- The part of a text that a method looks at, and what stands before it; there is
none if it would end before it begins. -/
def windowOf (start stop : Option Value) (s : List Char) :
    Render (Option (Nat × List Char)) := do
  let part := fun (v : Option Value) => Render.slicePart (v.getD .null)
  let first := cutPosition s.length ((← part start).getD 0)
  let last := min s.length (cutPosition s.length ((← part stop).getD s.length))
  return if first ≤ last then some (first, (s.take last).drop first) else none

/-- The texts that a method tries: one, or those of a tuple. -/
def alternatives (v : Value) : Render (List (List Char)) :=
  match v with
  | .tuple items => items.mapM Render.needText
  | _ => return [← Render.needText v]

/-- The pieces of a text cut at a mark or at blanks, from the left or the right. -/
def splitPieces (fromRight : Bool) (mark : Option (List Char)) (limit : Int) (s : List Char) :
    Except Fault (List (List Char)) :=
  let source := if fromRight then s.reverse else s
  let pieces : Except Fault (List (List Char)) :=
    match mark with
    | some [] => .error .badValue
    | some mark =>
        let mark := if fromRight then mark.reverse else mark
        .ok (cutAt mark (if limit < 0 then none else some limit.toNat) source)
    | none =>
        .ok (wordsUpTo (s.length + 1) (if limit < 0 then s.length + 1 else limit.toNat) source)
  pieces.map fun pieces => if fromRight then (pieces.map List.reverse).reverse else pieces

/-- A text cut in three at the first or last place of a mark. -/
def partitioned (last : Bool) (mark s : List Char) : List (List Char) :=
  match if last then findLast? mark s else find? mark s with
  | some n => [s.take n, mark, s.drop (n + mark.length)]
  | none => if last then [[], [], s] else [s, [], []]

/-- A date or time laid out by a pattern. -/
def patternText (v : Value) (pattern : List Char) : Option (Render (List Char)) :=
  match v with
  | .date d => some (return timeText (midnight d) pattern)
  | .dateTime d => some (return timeText d pattern)
  | _ => none

/-- A text with values between its braces, which are escaped if the text is markup. -/
def braced (isMarkup : Bool) (template : List Char) (given : Given) : Render (List Char) :=
  let field := fun (v : Value) (name : List Char) => Render.ownField? v (String.ofList name)
  braceFormat ⟨field, patternText, given, isMarkup⟩ template

/-- The characters that an encoding can write, by its name. -/
def encodable? (name : List Char) : Option (Char → Bool) :=
  let name := (lower name).map fun c => if c == '_' then '-' else c
  if ["utf-8", "utf8"].contains (String.ofList name) then some fun _ => true
  else if ["ascii", "us-ascii"].contains (String.ofList name) then some fun c => c.toNat < 0x80
  else if ["latin-1", "latin1", "iso-8859-1"].contains (String.ofList name) then
    some fun c => c.toNat < 0x100
  else none

/-- The bytes of a text in an encoding. -/
def encoded (s : List Char) (name : List Char) : Except Fault (List UInt8) :=
  match encodable? name with
  | none => .error .notListed
  | some canWrite =>
      if s.all canWrite then
        if canWrite (Char.ofNat 0x100) then .ok (String.ofList s).toUTF8.toList
        else .ok (s.map fun c => UInt8.ofNat c.toNat)
      else .error .notEncodable

/-- A method of a text that gives a text.  What is put into markup is escaped. -/
def textToText? (isMarkup : Bool) (s : List Char) (name : String) (g : Given) :
    Option (Render (List Char)) :=
  let part := fun (v : Value) => if isMarkup then Render.escaped v else Render.needText v
  let plain := fun (f : List Char → List Char) => some do
    Render.nothing g
    return f s
  let stripped := fun (strip : (Char → Bool) → List Char → List Char) => some do
    let given ← Render.bind g ["chars"] 0
    match ← Render.presentText (Given.nth given 0) with
    | none => return strip isBlank s
    | some chars => return strip chars.contains s
  let justified := fun (pad : Nat → Char → List Char) => some do
    let given ← Render.bind g ["width", "fillchar"] 1
    let width ← Render.intOr (Given.nth given 0) 0
    Render.ofExcept (roomFor width)
    match ← Render.textOr (Given.nth given 1) [' '] with
    | [c] => return pad width.toNat c
    | _ => throw .wrongType
  match name with
  | "upper" => plain upper
  | "lower" => plain lower
  | "casefold" => plain foldCase
  | "title" => plain titleCase
  | "capitalize" => plain capitalize
  | "swapcase" => plain swapCase
  | "strip" => stripped trimBy
  | "lstrip" => stripped trimLeft
  | "rstrip" => stripped trimRight
  | "ljust" => justified fun width c => padTo .left width c [] s
  | "rjust" => justified fun width c => padTo .right width c [] s
  | "center" => justified fun width c => centered width c s
  | "zfill" => some do
      let given ← Render.bind g ["width"] 1
      let width ← Render.intOr (Given.nth given 0) 0
      Render.ofExcept (roomFor width)
      match s with
      | '-' :: rest => return padTo .afterSign width.toNat '0' ['-'] rest
      | '+' :: rest => return padTo .afterSign width.toNat '0' ['+'] rest
      | _ => return padTo .afterSign width.toNat '0' [] s
  | "replace" => some do
      let given ← Render.bind g ["old", "new", "count"] 2
      let old ← Render.textOr (Given.nth given 0) []
      let new ← Render.textOr (Given.nth given 1) []
      let new := if isMarkup then escape new else new
      let count ← Render.intOr (Given.nth given 2) (-1)
      return replaceAll old new (if count < 0 then none else some count.toNat) s
  | "removeprefix" => some do
      let given ← Render.bind g ["part"] 1
      let part ← Render.textOr (Given.nth given 0) []
      return (dropWord part s).getD s
  | "removesuffix" => some do
      let given ← Render.bind g ["part"] 1
      let part ← Render.textOr (Given.nth given 0) []
      return if !part.isEmpty && part.isSuffixOf s then s.take (s.length - part.length) else s
  | "expandtabs" => some do
      let given ← Render.bind g ["tabsize"] 0
      let size ← Render.intOr (Given.nth given 0) 8
      return expandTabs size.toNat 0 s
  | "join" => some do
      let given ← Render.bind g ["items"] 1
      let items ← Render.items ((Given.nth given 0).getD .undefined)
      return joinWith s (← items.mapM part)
  | "format" => some (braced isMarkup s g)
  | "format_map" => some do
      let given ← Render.bind g ["mapping"] 1
      match ← Render.entries? ((Given.nth given 0).getD .undefined) with
      | none => throw .wrongType
      | some entries =>
          braced isMarkup s ⟨[], entries.filterMap fun (k, v) => k.chars?.map fun n => (String.ofList n, v)⟩
  | _ => none

/-- A method of a text that tells something about it. -/
def textFact? (s : List Char) (name : String) : Option Bool :=
  match name with
  | "isalnum" => some (!s.isEmpty && s.all isAlphanumeric)
  | "isalpha" => some (!s.isEmpty && s.all fun c => isIdentifierStart c && c != '_')
  | "isascii" => some (s.all fun c => c.toNat < 128)
  | "isdecimal" => some (!s.isEmpty && s.all isDecimalDigit)
  | "isdigit" => some (!s.isEmpty && s.all isDigitForm)
  | "isnumeric" => some (!s.isEmpty && s.all isNumeral)
  | "isidentifier" => some (isIdentifier s)
  | "isspace" => some (!s.isEmpty && s.all isBlank)
  | "isprintable" => some (s.all isPrintable)
  | "islower" => some (allCased lowerChar s)
  | "isupper" => some (allCased upperChar s)
  | "istitle" => some (s.any isCased && titleCase s == s)
  | _ => none

/-- Where a part stands in a text. -/
def textPlace (s : List Char) (last : Bool) (g : Given) : Render (Option Nat) := do
  let given ← Render.bind g ["sub", "start", "end"] 1
  let part ← Render.textOr (Given.nth given 0) []
  match ← windowOf (Given.nth given 1) (Given.nth given 2) s with
  | none => return none
  | some (offset, window) =>
      return (if last then findLast? part window else find? part window).map (· + offset)

/-- Calls a method of a text.  Parts of markup are markup. -/
def textMethod (isMarkup : Bool) (s : List Char) (name : String) (g : Given) :
    Render Value := do
  let part := if isMarkup then Value.safe else Value.text
  let place := fun (last : Bool) => do
    match ← textPlace s last g with
    | some n => return (n : Int)
    | none => return (-1 : Int)
  let edge := fun (matches_ : List Char → List Char → Bool) => do
    let given ← Render.bind g ["part", "start", "end"] 1
    let parts ← alternatives ((Given.nth given 0).getD .null)
    match ← windowOf (Given.nth given 1) (Given.nth given 2) s with
    | none => return Value.bool false
    | some (_, window) => return Value.bool (parts.any fun part => matches_ part window)
  let split := fun (fromRight : Bool) => do
    let given ← Render.bind g ["sep", "maxsplit"] 0
    let mark ← Render.presentText (Given.nth given 0)
    let limit ← Render.intOr (Given.nth given 1) (-1)
    let pieces ← Render.ofExcept (splitPieces fromRight mark limit s)
    Render.newList (pieces.map part)
  let partition := fun (last : Bool) => do
    let given ← Render.bind g ["sep"] 1
    match ← Render.textOr (Given.nth given 0) [] with
    | [] => throw .badValue
    | mark => return Value.tuple ((partitioned last mark s).map part)
  match textToText? isMarkup s name g with
  | some found => return part (← found)
  | none =>
      match textFact? s name with
      | some fact =>
          Render.nothing g
          return .bool fact
      | none =>
          match name with
          | "find" => return .int (← place false)
          | "rfind" => return .int (← place true)
          | "index" =>
              let n ← place false
              if n < 0 then throw .badValue else return .int n
          | "rindex" =>
              let n ← place true
              if n < 0 then throw .badValue else return .int n
          | "count" =>
              let given ← Render.bind g ["sub", "start", "end"] 1
              let part ← Render.textOr (Given.nth given 0) []
              match ← windowOf (Given.nth given 1) (Given.nth given 2) s with
              | none => return .int 0
              | some (_, window) => return .int (countOf part window)
          | "startswith" => edge List.isPrefixOf
          | "endswith" => edge List.isSuffixOf
          | "split" => split false
          | "rsplit" => split true
          | "splitlines" =>
              let given ← Render.bind g ["keepends"] 0
              let keeps ← Render.flagOr (Given.nth given 0) false
              Render.newList ((if keeps then linesWithEnds s else lines s).map part)
          | "partition" => partition false
          | "rpartition" => partition true
          | "encode" =>
              let given ← Render.bind g ["encoding"] 0
              let name ← Render.textOr (Given.nth given 0) "utf-8".toList
              return .bytes (← Render.ofExcept (encoded s name))
          | _ => throw .wrongType

/-! ## Lists -/

/-- How often a value is among others. -/
def countEqual (items : List Value) (g : Given) : Render Value := do
  let given ← Render.bind g ["value"] 1
  let objects := (← get).objects
  let v := (Given.nth given 0).getD .null
  return .int (items.countP fun x => x.equal objects v)

/-- Where a value is among others, or among those between two places. -/
def indexEqual (items : List Value) (g : Given) : Render Value := do
  let given ← Render.bind g ["value", "start", "stop"] 1
  let objects := (← get).objects
  let v := (Given.nth given 0).getD .null
  let start := cutPosition items.length (← Render.intOr (Given.nth given 1) 0)
  let stop := cutPosition items.length (← Render.intOr (Given.nth given 2) items.length)
  match ((items.take stop).drop start).findIdx? fun x => x.equal objects v with
  | some i => return .int (start + i)
  | none => throw .badValue

/-- Items ordered by a key that may be given. -/
def sortItems (less : Value → Value → Except Fault Bool) (descending : Bool)
    (keyed : List (Value × Value)) : Except Fault (List Value) := do
  let source := if descending then keyed.reverse else keyed
  let sorted ← sortBy (fun a b => less a.1 b.1) source
  let items := sorted.map (·.2)
  return if descending then items.reverse else items

/-- Calls a method of a list. -/
def listMethod (id : Nat) (items : List Value) (name : String) (g : Given) : Render Value := do
  let become := fun (items : List Value) => Render.replace id (.list items)
  match name with
  | "append" =>
      let given ← Render.bind g ["value"] 1
      become (items ++ [(Given.nth given 0).getD .null])
      return .null
  | "extend" =>
      let given ← Render.bind g ["items"] 1
      let more ← Render.items ((Given.nth given 0).getD .null)
      become (items ++ more)
      return .null
  | "insert" =>
      let given ← Render.bind g ["index", "value"] 2
      let index ← Render.intOr (Given.nth given 0) 0
      let at_ := (sliceBound items.length 0 items.length (some index) 0).toNat
      become (items.take at_ ++ (Given.nth given 1).getD .null :: items.drop at_)
      return .null
  | "pop" =>
      let given ← Render.bind g ["index"] 0
      let index ← Render.intOr (Given.nth given 0) (-1)
      match position? items.length index with
      | none => throw .noItem
      | some i =>
          become (items.eraseIdx i)
          return (items[i]?).getD .null
  | "remove" =>
      let given ← Render.bind g ["value"] 1
      let objects := (← get).objects
      let v := (Given.nth given 0).getD .null
      match items.findIdx? fun x => x.equal objects v with
      | none => throw .badValue
      | some i =>
          become (items.eraseIdx i)
          return .null
  | "clear" =>
      Render.nothing g
      become []
      return .null
  | "copy" =>
      Render.nothing g
      Render.newList items
  | "reverse" =>
      Render.nothing g
      become items.reverse
      return .null
  | "sort" =>
      let descending ← Render.flagOr (g.named? "reverse") false
      let objects := (← get).objects
      become (← Render.ofExcept (sortItems (Value.less objects) descending
        (items.map fun v => (v, v))))
      return .null
  | "count" => countEqual items g
  | "index" => indexEqual items g
  | _ => throw .wrongType

/-! ## Mappings -/

/-- The entries that something given to a mapping stands for. -/
def givenEntries (g : Given) : Render (List (Value × Value)) := do
  let named := g.named.map fun (n, v) => (Value.text n.toList, v)
  match g.items with
  | [] => return named
  | [source] =>
      match ← Render.entries? source with
      | some entries => return entries ++ named
      | none =>
          let pairs ← (← Render.items source).mapM fun pair => do
            match ← Render.items pair with
            | [k, v] => return (k, v)
            | _ => throw .badValue
          return pairs ++ named
  | _ => throw .wrongType

/-- Calls a method of a mapping. -/
def mappingMethod (id : Nat) (entries : List (Value × Value)) (name : String) (g : Given) :
    Render Value := do
  let become := fun (entries : List (Value × Value)) => Render.replace id (.mapping entries)
  let view := fun (kind : View) => do
    Render.nothing g
    return Value.view kind id
  let objects := (← get).objects
  let dropKey := fun (key : Value) => entries.filter fun e => !e.1.equal objects key
  match name with
  | "keys" => view .keys
  | "values" => view .values
  | "items" => view .items
  | "get" =>
      let given ← Render.bind g ["key", "default"] 1
      let key := (Given.nth given 0).getD .null
      Render.requireHashable key
      return (← Render.lookUp entries key).getD ((Given.nth given 1).getD .null)
  | "setdefault" =>
      let given ← Render.bind g ["key", "default"] 1
      let key := (Given.nth given 0).getD .null
      Render.requireHashable key
      match ← Render.lookUp entries key with
      | some v => return v
      | none =>
          let v := (Given.nth given 1).getD .null
          become (insertKey objects entries key v)
          return v
  | "pop" =>
      let given ← Render.bind g ["key", "default"] 1
      let key := (Given.nth given 0).getD .null
      Render.requireHashable key
      match ← Render.lookUp entries key, Given.nth given 1 with
      | some v, _ =>
          become (dropKey key)
          return v
      | none, some v => return v
      | none, none => throw .noKey
  | "popitem" =>
      Render.nothing g
      match entries.getLast? with
      | some (k, v) =>
          become entries.dropLast
          return .tuple [k, v]
      | none => throw .noKey
  | "update" =>
      let more ← givenEntries g
      for (key, _) in more do Render.requireHashable key
      become (more.foldl (fun acc e => insertKey objects acc e.1 e.2) entries)
      return .null
  | "clear" =>
      Render.nothing g
      become []
      return .null
  | "copy" =>
      Render.nothing g
      Render.allocate (.mapping entries)
  | _ => throw .wrongType

/-! ## Dates -/

/-- Calls a method of a date or time. -/
def timeMethod (t : Data.DateTime) (isDate : Bool) (name : String) (g : Given) :
    Render Value := do
  match name with
  | "isoformat" =>
      if isDate then
        Render.nothing g
        return .text t.date.text
      else
        let given ← Render.bind g ["sep"] 0
        match ← Render.textOr (Given.nth given 0) ['T'] with
        | [c] => return .text (t.textWith c)
        | _ => throw .wrongType
  | "strftime" =>
      let given ← Render.bind g ["format"] 1
      return .text (timeText t (← Render.textOr (Given.nth given 0) []))
  | "weekday" =>
      Render.nothing g
      return .int (weekday t.date)
  | "isoweekday" =>
      Render.nothing g
      return .int (weekday t.date + 1)
  | "toordinal" =>
      Render.nothing g
      return .int t.date.ordinal
  | "date" =>
      Render.nothing g
      return .date t.date
  | "ctime" =>
      Render.nothing g
      return .text (timeText t "%a %b %e %H:%M:%S %Y".toList)
  | "replace" =>
      let given ← Render.bind g
        (["year", "month", "day"] ++
          if isDate then [] else ["hour", "minute", "second", "microsecond"]) 0
      let part := fun (i n : Nat) => do
        return (← Render.intOr (Given.nth given i) n).toNat
      let d : Data.Date :=
        ⟨← part 0 t.date.year, ← part 1 t.date.month, ← part 2 t.date.day⟩
      let t' : Data.DateTime :=
        ⟨d, ← part 3 t.hour, ← part 4 t.minute, ← part 5 t.second, ← part 6 t.microsecond, t.offset⟩
      if !t'.isValid then throw .badValue
      return if isDate then .date d else .dateTime t'
  | _ => throw .wrongType

/-! ## Objects of templates -/

/-- Calls a method of a loop. -/
def loopMethod (id : Nat) (state : LoopState) (name : String) (g : Given) : Render Value := do
  match name with
  | "cycle" =>
      if g.items.isEmpty then throw .wrongType
      return (g.items[state.position % g.items.length]?).getD .undefined
  | "changed" =>
      let objects := (← get).objects
      let same := state.compared.any fun old => pairwise (Value.equal objects) old g.items
      if !same then Render.replace id (.loop { state with compared := some g.items })
      return .bool !same
  | _ => throw .wrongType

/-- Calls a method of something that goes round its items. -/
def cyclerMethod (id : Nat) (items : List Value) (position : Nat) (name : String) (g : Given) :
    Render Value := do
  Render.nothing g
  match name with
  | "next" =>
      Render.replace id (.cycler items ((position + 1) % max items.length 1))
      return (items[position]?).getD .undefined
  | _ =>
      Render.replace id (.cycler items 0)
      return .null

/-! ## All methods -/

/-- Calls a method of a value. -/
def callMethod (receiver : Value) (name : String) (g : Given) : Render Value := do
  match receiver with
  | .text s => textMethod false s name g
  | .safe s => textMethod true s name g
  | .tuple items => if name = "count" then countEqual items g else indexEqual items g
  | .range start stop step =>
      let items := (rangeItems start stop step).map Value.int
      if name = "count" then countEqual items g else indexEqual items g
  | .date d => timeMethod (midnight d) true name g
  | .dateTime d => timeMethod d false name g
  | .int n =>
      match name with
      | "bit_length" => return .int (if n = 0 then 0 else n.natAbs.log2 + 1)
      | "conjugate" => return .int n
      | _ => throw .wrongType
  | .float x =>
      match name with
      | "is_integer" => return .bool (Number.isFinite x && x.floor == x)
      | _ => throw .wrongType
  | .bytes content =>
      match name with
      | "decode" =>
          match String.fromUTF8? ⟨content.toArray⟩ with
          | some s => return .text s.toList
          | none => throw .notText
      | _ => throw .wrongType
  | .object id =>
      match ← Render.object? id with
      | some (.list items) => listMethod id items name g
      | some (.mapping entries) => mappingMethod id entries name g
      | some (.loop state) => loopMethod id state name g
      | some (.cycler items position) => cyclerMethod id items position name g
      | _ => throw .wrongType
  | _ => throw .wrongType

end Folio.Template
