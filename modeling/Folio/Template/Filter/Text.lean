import Folio.Template.Escape
import Folio.Template.Format.Percent
import Folio.Template.Method

/-!
# Filters of texts

Filters that take the text of a value and give a text.
-/

namespace Folio.Template.Filter

open Text

/-! ## Letters and blanks -/

/-- Whether a character stands between words that begin with capitals. -/
def separatesTitles (c : Char) : Bool :=
  c == '-' || c == '(' || c == '{' || c == '[' || c == '<' || isBlank c

/-- A text in words with capitals: what is between separators begins with a capital
and goes on in small letters. -/
def titleText (s : List Char) : List Char :=
  let rec words : Nat → List Char → List Char
    | 0, _ => []
    | _, [] => []
    | fuel + 1, c :: rest =>
        if separatesTitles c then c :: words fuel rest
        else
          let word := rest.takeWhile fun d => !separatesTitles d
          upperChar c ++ lower word ++ words fuel (rest.dropWhile fun d => !separatesTitles d)
  words (s.length + 1) s

/-- How many words a text has. -/
def wordCount (s : List Char) : Nat :=
  (wordsBy (fun c => !isWord c) s).length

/-- A text with its lines but the first indented. -/
def indented (indent : List Char) (first blank : Bool) (s : List Char) : List Char :=
  let all := lines (s ++ ['\n'])
  let body :=
    if blank then joinWith ('\n' :: indent) all
    else
      match all with
      | [] => []
      | line :: rest =>
          joinWith ['\n'] (line :: rest.map fun l => if l.isEmpty then l else indent ++ l)
  if first then indent ++ body else body

/-- A text cut to a length; `finish` stands where it is cut. -/
def truncated (length leeway : Int) (killsWords : Bool) (finish s : List Char) :
    Except Fault (List Char) :=
  if length < finish.length || leeway < 0 then .error .outOfRange
  else if s.length ≤ length + leeway then .ok s
  else
    let kept := s.take (length - finish.length).toNat
    if killsWords then .ok (kept ++ finish)
    else
      match findLast? [' '] kept with
      | some n => .ok (kept.take n ++ finish)
      | none => .ok (kept ++ finish)

/-! ## Wrapping -/

/-- The words and blanks of a line; a word may be cut after a hyphen. -/
def chunks (onHyphens : Bool) : Nat → List Char → List (List Char)
  | 0, _ => []
  | _, [] => []
  | fuel + 1, c :: rest =>
      if isLayoutBlank c then
        (c :: rest.takeWhile isLayoutBlank) :: chunks onHyphens fuel (rest.dropWhile isLayoutBlank)
      else
        let word := c :: rest.takeWhile fun d => !isLayoutBlank d
        let after := rest.dropWhile fun d => !isLayoutBlank d
        let pieces := if onHyphens then hyphenPieces [] word else [word]
        pieces ++ chunks onHyphens fuel after
where
  /-- The pieces of a word after whose hyphens a line may end. -/
  hyphenPieces (piece : List Char) : List Char → List (List Char)
    | [] => if piece.isEmpty then [] else [piece.reverse]
    | a :: '-' :: b :: rest =>
        if isWord a && a != '_' && isWord b && piece.any isWord then
          ('-' :: a :: piece).reverse :: hyphenPieces [] (b :: rest)
        else hyphenPieces (a :: piece) ('-' :: b :: rest)
    | a :: rest => hyphenPieces (a :: piece) rest

/-- Takes chunks while they fit: those taken, last first, and the rest. -/
def takeFitting (width : Nat) : Nat → List (List Char) → List (List Char) →
    List (List Char) × Nat × List (List Char)
  | used, taken, [] => (taken, used, [])
  | used, taken, chunk :: rest =>
      if used + chunk.length ≤ width then
        takeFitting width (used + chunk.length) (chunk :: taken) rest
      else (taken, used, chunk :: rest)

/-- Where a chunk that is too long is cut. -/
def cutPlace (onHyphens : Bool) (room : Nat) (chunk : List Char) : Nat :=
  match if onHyphens then findLast? ['-'] (chunk.take room) else none with
  | some n => if 0 < n && (chunk.take n).any (· != '-') then n + 1 else room
  | none => room

/-- Chunks as lines of a width. -/
def wrapped (width : Nat) (breaksWords onHyphens : Bool) :
    Nat → Bool → List (List Char) → List (List Char)
  | 0, _, _ => []
  | _, _, [] => []
  | fuel + 1, begun, chunk :: rest =>
      let source := if begun && chunk.all isBlank then rest else chunk :: rest
      let (taken, used, left) := takeFitting width 0 [] source
      let (taken, left) := match left with
        | long :: others =>
            if width < long.length then
              if breaksWords then
                let room := if width < 1 then 1 else width - used
                let n := cutPlace onHyphens room long
                (long.take n :: taken, long.drop n :: others)
              else if taken.isEmpty then ([long], others)
              else (taken, left)
            else (taken, left)
        | [] => (taken, [])
      let taken := match taken with
        | last :: before => if last.all isBlank then before else taken
        | [] => []
      if taken.isEmpty then wrapped width breaksWords onHyphens fuel begun left
      else taken.reverse.flatten :: wrapped width breaksWords onHyphens fuel true left

/-! ## Addresses -/

/-- A byte as it stands in an address. -/
def quotedByte (isKept : Char → Bool) (b : UInt8) : List Char :=
  let c := Char.ofNat b.toNat
  if b.toNat < 128 && (c.isAlphanum || ['_', '.', '-', '~'].contains c || isKept c) then [c]
  else '%' :: (hexDigits 2 b.toNat).map Char.toUpper

/-- A text as it stands in an address, or in a query. -/
def quotedAddress (inQuery : Bool) (s : List Char) : List Char :=
  (String.ofList s).toUTF8.toList.flatMap fun b =>
    if inQuery && b.toNat = 32 then ['+'] else quotedByte (fun c => !inQuery && c == '/') b

/-- The text of a value as it stands in an address. -/
def quotedPart (inQuery : Bool) (v : Value) : Render (List Char) := do
  match v with
  | .bytes content =>
      return content.flatMap fun b =>
        if inQuery && b.toNat = 32 then ['+'] else quotedByte (fun c => !inQuery && c == '/') b
  | _ => return quotedAddress inQuery (← Render.shown v)

/-- A value as it stands in an address; keys with values become a query. -/
def addressText (v : Value) : Render (List Char) := do
  let pairs := fun (items : List Value) => do
    let parts ← items.mapM fun pair => do
      match ← Render.items pair with
      | [k, w] => return (← quotedPart true k) ++ '=' :: (← quotedPart true w)
      | _ => throw .badValue
    return joinWith ['&'] parts
  match v.chars? with
  | some s => return quotedAddress false s
  | none =>
      match ← Render.entries? v with
      | some entries => pairs (entries.map fun (k, w) => .tuple [k, w])
      | none =>
          match ← Render.items? v with
          | some items => pairs items
          | none => quotedPart false v

/-- Keys with values as attributes of a tag. -/
def attributesText (entries : List (Value × Value)) : Render (List Char) := do
  let parts ← entries.filterMapM fun (k, v) => do
    match v with
    | .null => return none
    | .undefined => return none
    | _ =>
        let key ← Render.needText k
        if key.any fun c => isBlank c || c == '/' || c == '>' || c == '=' then throw .badValue
        return some (escape key ++ ['=', '"'] ++ (← Render.escaped v) ++ ['"'])
  return joinWith [' '] parts

/-! ## The filters -/

/-- The text of a value, changed; a safe text stays safe. -/
def changed (f : List Char → List Char) (v : Value) : Render Value := do
  match v with
  | .safe s => return .safe (f s)
  | _ => return .text (f (← Render.shown v))

/-- The width of an indentation: a number of blanks, or a text. -/
def indentOf (v : Option Value) : Render (List Char) := do
  match v with
  | none => return List.replicate 4 ' '
  | some v =>
      match v.chars? with
      | some s => return s
      | none =>
          let width ← Render.needInt v
          Render.ofExcept (roomFor width)
          return List.replicate width.toNat ' '

/-- A text that another can be appended to. -/
def appendable (v : Value) : Render (List Char) := do
  match v with
  | .undefined => throw .undefined
  | _ => Render.needText v

/-- Applies a filter of texts, if it is one. -/
def ofText? (name : String) (v : Value) (g : Given) : Option (Render Value) :=
  let plain := fun (f : List Char → List Char) => some do
    Render.nothing g
    changed f v
  match name with
  | "upper" => plain upper
  | "lower" => plain lower
  | "capitalize" => plain capitalize
  | "title" => some do
      Render.nothing g
      return .text (titleText (← Render.shown v))
  | "string" => plain id
  | "trim" => some do
      let given ← Render.bind g ["chars"] 0
      match ← Render.presentText (Given.nth given 0) with
      | none => changed trim v
      | some chars => changed (trimBy chars.contains) v
  | "center" => some do
      let given ← Render.bind g ["width"] 0
      let width ← Render.intOr (Given.nth given 0) 80
      Render.ofExcept (roomFor width)
      changed (centered width ' ') v
  | "escape" => some do
      Render.nothing g
      return .safe (← Render.escaped v)
  | "e" => some do
      Render.nothing g
      return .safe (← Render.escaped v)
  | "forceescape" => some do
      Render.nothing g
      return .safe (escape (← Render.shown v))
  | "safe" => some do
      Render.nothing g
      return .safe (← Render.shown v)
  | "striptags" => some do
      Render.nothing g
      return .text (withoutTags (← Render.shown v))
  | "replace" => some do
      let given ← Render.bind g ["old", "new", "count"] 2
      let part := fun (i : Nat) => Render.shown ((Given.nth given i).getD .undefined)
      let old ← part 0
      let new ← part 1
      let limit ←
        match Given.nth given 2 with
        | none => pure none
        | some .null => pure none
        | some n =>
            let n ← Render.needInt n
            pure (if n < 0 then none else some n.toNat)
      return .text (replaceAll old new limit (← Render.shown v))
  | "format" => some do
      if !g.items.isEmpty && !g.named.isEmpty then throw .badFilterArgument
      let template ← Render.shown v
      let given ←
        if g.named.isEmpty then pure (.tuple g.items)
        else Render.newMapping (g.named.map fun (n, w) => (.text n.toList, w))
      match v with
      | .safe _ => return .safe (← percentFormat true template given)
      | _ => return .text (← percentFormat false template given)
  | "indent" => some do
      let given ← Render.bind g ["width", "first", "blank"] 0
      let indent ← indentOf (Given.nth given 0)
      let first ← Render.flagOr (Given.nth given 1) false
      let blank ← Render.flagOr (Given.nth given 2) false
      let s ← appendable v
      changed (fun _ => indented indent first blank s) v
  | "truncate" => some do
      let given ← Render.bind g ["length", "killwords", "end", "leeway"] 0
      let length ← Render.intOr (Given.nth given 0) 255
      let kills ← Render.flagOr (Given.nth given 1) false
      let finish ← Render.textOr (Given.nth given 2) ['.', '.', '.']
      let leeway ←
        match Given.nth given 3 with
        | none => pure 5
        | some .null => pure 5
        | some n => Render.needInt n
      let s ←
        match v with
        | .undefined => pure []
        | _ => Render.needText v
      let s ← Render.ofExcept (truncated length leeway kills finish s)
      changed (fun _ => s) v
  | "wordcount" => some do
      Render.nothing g
      return .int (wordCount (← Render.shown v))
  | "wordwrap" => some do
      let given ← Render.bind g ["width", "break_long_words", "wrapstring", "break_on_hyphens"] 0
      let width ← Render.intOr (Given.nth given 0) 79
      let breaks ← Render.flagOr (Given.nth given 1) true
      let mark := (← Render.presentText (Given.nth given 2)).getD ['\n']
      let onHyphens ← Render.flagOr (Given.nth given 3) true
      if width ≤ 0 then throw .badValue
      let s ← appendable v
      let wrap := fun (line : List Char) =>
        joinWith mark (wrapped width.toNat breaks onHyphens (line.length + 1) false
          (chunks onHyphens (line.length + 1) line))
      return .text (joinWith mark ((lines s).map wrap))
  | "urlencode" => some do
      Render.nothing g
      return .text (← addressText v)
  | "urlize" => some do
      return .text (← Render.escaped v)
  | "xmlattr" => some do
      let given ← Render.bind g ["autospace"] 0
      let spaced ← Render.flagOr (Given.nth given 0) true
      match v, ← Render.entries? v with
      | .undefined, _ => throw .undefined
      | _, none => throw .noAttribute
      | _, some entries =>
          let s ← attributesText entries
          return .text (if spaced && !s.isEmpty then ' ' :: s else s)
  | _ => none

end Folio.Template.Filter
