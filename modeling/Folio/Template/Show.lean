import Folio.Template.Value
import Folio.Text.Blank
import Folio.Text.Printable

/-!
# Values as text

A printed value is its `shown` text.  Inside another value it stands as its `spelled`
text, in which texts have quotation marks.  A value that holds itself is cut off
where it would begin anew.
-/

namespace Folio.Template

open Text

/-! ## Scalars -/

/-- A byte inside a quoted run of bytes. -/
def spelledByte (mark : Char) (b : UInt8) : List Char :=
  let c := Char.ofNat b.toNat
  if c == mark || c == '\\' then ['\\', c]
  else if c == '\t' then ['\\', 't']
  else if c == '\n' then ['\\', 'n']
  else if c == '\r' then ['\\', 'r']
  else if 32 ≤ b.toNat && b.toNat < 127 then [c]
  else '\\' :: 'x' :: hexDigits 2 b.toNat

/-- Bytes between quotation marks. -/
def spelledBytes (content : List UInt8) : List Char :=
  let has := fun c : Char => content.any fun b => b.toNat = c.toNat
  let mark := if has '\'' && !has '"' then '"' else '\''
  'b' :: mark :: content.flatMap (spelledByte mark) ++ [mark]

/-- Values one after another. -/
def commaJoined (items : List (List Char)) : List Char :=
  joinWith [',', ' '] items

/-- Numbers as the arguments of a call. -/
def numberArguments (numbers : List Int) : List Char :=
  commaJoined (numbers.map Decimal.intText)

/-- A date as a value that can be written in source text. -/
def spelledDate (d : Data.Date) : List Char :=
  "datetime.date(".toList ++ numberArguments [d.year, d.month, d.day] ++ [')']

/-- A time zone by its offset in seconds. -/
def spelledOffset (offset : Int) : List Char :=
  if offset = 0 then "datetime.timezone.utc".toList
  else
    let days := offset / 86400
    let seconds := offset % 86400
    let parts :=
      (if days = 0 then [] else ["days=".toList ++ Decimal.intText days]) ++
        (if seconds = 0 then [] else ["seconds=".toList ++ Decimal.intText seconds])
    "datetime.timezone(datetime.timedelta(".toList ++ commaJoined parts ++ "))".toList

/-- A time as a value that can be written in source text. -/
def spelledTime (d : Data.DateTime) : List Char :=
  let rest : List Int :=
    if d.microsecond ≠ 0 then [d.second, d.microsecond]
    else if d.second ≠ 0 then [d.second]
    else []
  let zone := match d.offset with
    | some o => ", tzinfo=".toList ++ spelledOffset o
    | none => []
  "datetime.datetime(".toList ++
    numberArguments ([(d.date.year : Int), d.date.month, d.date.day, d.hour, d.minute] ++ rest) ++
    zone ++ [')']

/-- A range as a value that can be written in source text. -/
def spelledRange (start stop step : Int) : List Char :=
  "range(".toList ++ numberArguments ([start, stop] ++ if step = 1 then [] else [step]) ++ [')']

/-- The name of a function that every template knows. -/
def Builtin.spelled : Builtin → String
  | .range => "<class 'range'>"
  | .mapping => "<class 'dict'>"
  | .loremIpsum => "<function generate_lorem_ipsum>"
  | .cycler => "<class 'Cycler'>"
  | .joiner => "<class 'Joiner'>"
  | .record => "<class 'Namespace'>"

/-- Items between marks. -/
def between (first : String) (items : List (List Char)) (last : String) : List Char :=
  first.toList ++ commaJoined items ++ last.toList

/-! ## All values -/

/-- The text of a value inside another, `within` being the objects that it stands
in; `fuel` bounds how deep values are shown. -/
def spelledWithin (objects : Array Object) : Nat → List Nat → Value → List Char
  | 0, _, _ => ['.', '.', '.']
  | fuel + 1, within, v =>
      let item := spelledWithin objects fuel within
      let pair := fun (sep : String) (p : Value × Value) => item p.1 ++ sep.toList ++ item p.2
      match v with
      | .undefined => "Undefined".toList
      | .null => "None".toList
      | .bool b => if b then "True".toList else "False".toList
      | .int n => Decimal.intText n
      | .float x => Decimal.floatText x
      | .text s => quote s
      | .safe s => "Markup(".toList ++ quote s ++ [')']
      | .bytes content => spelledBytes content
      | .date d => spelledDate d
      | .dateTime d => spelledTime d
      | .tuple [x] => '(' :: item x ++ [',', ')']
      | .tuple items => between "(" (items.map item) ")"
      | .set [] => "set()".toList
      | .set items => between "\x7b" (items.map item) "\x7d"
      | .range start stop step => spelledRange start stop step
      | .method _ name => ("<built-in method " ++ name ++ ">").toList
      | .builtin function => function.spelled.toList
      | .view kind id =>
          let items := match objects[id]? with
            | some (.mapping items) => items
            | _ => []
          match kind with
          | .keys => between "dict_keys([" (items.map fun p => item p.1) "])"
          | .values => between "dict_values([" (items.map fun p => item p.2) "])"
          | .items =>
              between "dict_items([" (items.map fun p => '(' :: pair ", " p ++ [')']) "])"
      | .object id =>
          let inside := spelledWithin objects fuel (id :: within)
          let insidePair := fun (p : Value × Value) => inside p.1 ++ [':', ' '] ++ inside p.2
          match objects[id]? with
          | some (.list items) =>
              if within.contains id then "[...]".toList else between "[" (items.map inside) "]"
          | some (.mapping items) =>
              if within.contains id then "\x7b...\x7d".toList
              else between "\x7b" (items.map insidePair) "\x7d"
          | some (.record fields) =>
              "<Namespace ".toList ++ between "\x7b" (fields.map insidePair) "\x7d>"
          | some (.group key items) => between "(" [inside key, inside items] ")"
          | some (.loop state) =>
              "<LoopContext ".toList ++ Decimal.natText (state.position + 1) ++
                '/' :: Decimal.natText state.items.length ++ ['>']
          | some (.routine r) =>
              "<Macro ".toList ++
                (match r.name with
                  | some name => quote name.toList
                  | none => "anonymous".toList) ++ ['>']
          | some (.library name _ _) =>
              "<TemplateModule ".toList ++ quote name.toList ++ ['>']
          | some (.stream _) => "<generator object>".toList
          | some (.cycler _ _) => "<Cycler object>".toList
          | some (.joiner _ _) => "<Joiner object>".toList
          | some (.blockCall _ _) => "<BlockReference object>".toList
          | some (.ownBlocks _) => "<TemplateReference object>".toList
          | none => []

/-- How deep values are shown. -/
def maxShownDepth : Nat := 300

/-- The text of a value inside another. -/
def Value.spelled (objects : Array Object) (v : Value) : List Char :=
  spelledWithin objects maxShownDepth [] v

/-- The text of a value that is printed. -/
def Value.shown (objects : Array Object) (v : Value) : List Char :=
  match v with
  | .undefined => []
  | .text s => s
  | .safe s => s
  | .date d => d.text
  | .dateTime d => d.textWith ' '
  | .object id =>
      match objects[id]? with
      | some (.library _ _ content) => content
      | _ => v.spelled objects
  | _ => v.spelled objects

namespace Render

/-- The text of a value that is printed. -/
def shown (v : Value) : Render (List Char) :=
  return v.shown (← get).objects

/-- The text of a value inside another. -/
def spelled (v : Value) : Render (List Char) :=
  return v.spelled (← get).objects

end Render

end Folio.Template
