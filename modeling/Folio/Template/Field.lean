import Folio.Template.Sequence

/-!
# Fields of values

A field is written after a point.  Values have fields of their own, most of them
methods; a mapping also has its texts as fields, where no method has the name.
What has neither is undefined.
-/

namespace Folio.Template

/-! ## Methods -/

/-- The methods of texts. -/
def textMethods : List String :=
  ["capitalize", "casefold", "center", "count", "encode", "endswith", "expandtabs", "find",
    "format", "format_map", "index", "isalnum", "isalpha", "isascii", "isdecimal", "isdigit",
    "isidentifier", "islower", "isnumeric", "isprintable", "isspace", "istitle", "isupper", "join",
    "ljust", "lower", "lstrip", "maketrans", "partition", "removeprefix", "removesuffix",
    "replace", "rfind", "rindex", "rjust", "rpartition", "rsplit", "rstrip", "split", "splitlines",
    "startswith", "strip", "swapcase", "title", "translate", "upper", "zfill"]

/-- The methods of lists. -/
def listMethods : List String :=
  ["append", "clear", "copy", "count", "extend", "index", "insert", "pop", "remove", "reverse",
    "sort"]

/-- The methods of mappings. -/
def mappingMethods : List String :=
  ["clear", "copy", "fromkeys", "get", "items", "keys", "pop", "popitem", "setdefault", "update",
    "values"]

/-- The methods of fixed sequences. -/
def tupleMethods : List String :=
  ["count", "index"]

/-- The methods of sets. -/
def setMethods : List String :=
  ["add", "clear", "copy", "difference", "discard", "intersection", "isdisjoint", "issubset",
    "issuperset", "pop", "remove", "symmetric_difference", "union", "update"]

/-- The methods of integers. -/
def intMethods : List String :=
  ["as_integer_ratio", "bit_count", "bit_length", "conjugate", "from_bytes", "to_bytes"]

/-- The methods of floating-point numbers. -/
def floatMethods : List String :=
  ["as_integer_ratio", "conjugate", "fromhex", "hex", "is_integer"]

/-- The methods of dates. -/
def dateMethods : List String :=
  ["ctime", "isocalendar", "isoformat", "isoweekday", "replace", "strftime", "timetuple",
    "toordinal", "weekday"]

/-- The methods of times that dates do not have. -/
def timeMethods : List String :=
  ["astimezone", "date", "dst", "time", "timestamp", "timetz", "tzname", "utcoffset",
    "utctimetuple"]

/-- The methods of bytes. -/
def bytesMethods : List String :=
  ["decode", "hex", "count", "find", "index", "join", "replace", "split", "strip", "upper", "lower",
    "startswith", "endswith"]

/-! ## Blocks that are called -/

/-- The next block of the same name in the extended templates, if there is one. -/
def Render.parentBlock (context : Nat) (stack : List BlockCode) : Render Value := do
  match stack with
  | _ :: next :: rest => Render.allocate (.blockCall context (next :: rest))
  | _ => return .undefined

/-! ## Loops -/

/-- A field of a loop. -/
def loopField (id : Nat) (state : LoopState) (name : String) : Option Value :=
  let length := state.items.length
  let at_ := fun (i : Nat) => (state.items[i]?).getD .undefined
  match name with
  | "index" => some (.int (state.position + 1))
  | "index0" => some (.int state.position)
  | "revindex" => some (.int (length - state.position))
  | "revindex0" => some (.int (length - state.position - 1))
  | "first" => some (.bool (state.position == 0))
  | "last" => some (.bool (state.position + 1 == length))
  | "length" => some (.int length)
  | "depth" => some (.int (state.depth + 1))
  | "depth0" => some (.int state.depth)
  | "previtem" => some (if state.position = 0 then .undefined else at_ (state.position - 1))
  | "nextitem" => some (at_ (state.position + 1))
  | "cycle" => some (.method (.object id) name)
  | "changed" => some (.method (.object id) name)
  | _ => none

namespace Render

/-! ## Fields -/

/-- A field that a value has of its own, if it has it. -/
def ownField? (v : Value) (name : String) : Render (Option Value) := do
  let method := fun (names : List String) =>
    if names.contains name then some (Value.method v name) else none
  match v with
  | .undefined =>
      if name.startsWith "__" && name.endsWith "__" then return none else throw .undefined
  | .text _ => return method textMethods
  | .safe _ => return method ("striptags" :: "unescape" :: textMethods)
  | .bytes _ => return method bytesMethods
  | .tuple _ => return method tupleMethods
  | .set _ => return method setMethods
  | .int n =>
      match name with
      | "real" => return some (.int n)
      | "numerator" => return some (.int n)
      | "imag" => return some (.int 0)
      | "denominator" => return some (.int 1)
      | _ => return method intMethods
  | .bool b =>
      match name with
      | "real" => return some (.int (if b then 1 else 0))
      | "numerator" => return some (.int (if b then 1 else 0))
      | "imag" => return some (.int 0)
      | "denominator" => return some (.int 1)
      | _ => return method intMethods
  | .float x =>
      match name with
      | "real" => return some (.float x)
      | "imag" => return some (.float 0.0)
      | _ => return method floatMethods
  | .date d =>
      match name with
      | "year" => return some (.int d.year)
      | "month" => return some (.int d.month)
      | "day" => return some (.int d.day)
      | _ => return method dateMethods
  | .dateTime d =>
      match name with
      | "year" => return some (.int d.date.year)
      | "month" => return some (.int d.date.month)
      | "day" => return some (.int d.date.day)
      | "hour" => return some (.int d.hour)
      | "minute" => return some (.int d.minute)
      | "second" => return some (.int d.second)
      | "microsecond" => return some (.int d.microsecond)
      | "fold" => return some (.int 0)
      | "tzinfo" => return some (if d.offset.isSome then .text "UTC".toList else .null)
      | _ => return method (timeMethods ++ dateMethods)
  | .range start stop step =>
      match name with
      | "start" => return some (.int start)
      | "stop" => return some (.int stop)
      | "step" => return some (.int step)
      | _ => return method tupleMethods
  | .object id =>
      match ← object? id with
      | some (.list _) => return method listMethods
      | some (.mapping _) => return method mappingMethods
      | some (.record fields) => lookUp fields (.text name.toList)
      | some (.group key members) =>
          match name with
          | "grouper" => return some key
          | "list" => return some members
          | _ => return method tupleMethods
      | some (.cycler items position) =>
          match name with
          | "current" => return some ((items[position]?).getD .undefined)
          | "pos" => return some (.int position)
          | "items" => return some (.tuple items)
          | _ => return method ["next", "reset"]
      | some (.loop state) => return loopField id state name
      | some (.routine r) =>
          match name with
          | "name" =>
              return some ((r.name.map fun n => Value.text n.toList).getD .null)
          | "arguments" =>
              return some (.tuple (r.signature.parameters.map fun n => .text n.toList))
          | "catch_kwargs" => return some (.bool r.usesNamed)
          | "catch_varargs" => return some (.bool r.usesMore)
          | "caller" => return some (.bool r.usesCaller)
          | _ => return none
      | some (.library libraryName members _) =>
          if name = "__name__" then return some (.text libraryName.toList)
          else return members.lookup name
      | some (.blockCall context stack) =>
          match name with
          | "super" => return some (← parentBlock context stack)
          | "name" =>
              return (stack.head?.map fun b => Value.text b.block.name.toList)
          | _ => return none
      | _ => return none
  | _ => return none

/-- What stands after a point: a field of the value's own, or the item under the
text. -/
def field (v : Value) (name : String) : Render Value := do
  match ← ownField? v name with
  | some found => return found
  | none => return (← item? v (.text name.toList)).getD .undefined

/-- What stands in brackets: the item, or the field that a text names. -/
def item (v index : Value) : Render Value := do
  match ← item? v index with
  | some found => return found
  | none =>
      match index.chars? with
      | some name => return (← ownField? v (String.ofList name)).getD .undefined
      | none => return .undefined

/-! ## Paths of fields -/

/-- The parts of a path written with points; a part of digits is a number. -/
def pathParts (path : Value) : List Value :=
  match path.chars? with
  | some s =>
      (Text.splitAt '.' s).map fun part =>
        if !part.isEmpty && part.all Text.isDecimalDigit then
          .int (Decimal.digitsValue 10 part)
        else .text part
  | none => [path]

/-- What a path leads to; `default` stands for what is undefined on the way. -/
def follow (path : List Value) (default : Option Value) (v : Value) : Render Value :=
  path.foldlM (fun v part => do
    match ← item v part, default with
    | .undefined, some d => return d
    | found, _ => return found) v

end Render

end Folio.Template
