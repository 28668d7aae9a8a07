import Folio.Template.Method

/-!
# Functions that every template knows

Ranges, mappings, records, and things that count how often they were asked.
-/

namespace Folio.Template

/-- The names of the functions. -/
def builtins : List (String × Value) :=
  [("range", .builtin .range), ("dict", .builtin .mapping), ("lipsum", .builtin .loremIpsum),
    ("cycler", .builtin .cycler), ("joiner", .builtin .joiner), ("namespace", .builtin .record)]

/-- The range from a start to an end by steps. -/
def rangeOf (g : Given) : Render Value := do
  if !g.named.isEmpty then throw .wrongType
  let numbers ← g.items.mapM fun v => do
    match v with
    | .undefined => throw Fault.wrongType
    | _ => Render.needInt v
  match numbers with
  | [stop] => return .range 0 stop 1
  | [start, stop] => return .range start stop 1
  | [start, stop, step] => if step = 0 then throw .badValue else return .range start stop step
  | _ => throw .wrongType

/-- Calls a function. -/
def callBuiltin (function : Builtin) (g : Given) : Render Value := do
  match function with
  | .range => rangeOf g
  | .mapping => Render.newMapping (← givenEntries g)
  | .record =>
      let entries ← givenEntries g
      let objects := (← get).objects
      Render.allocate (.record (entries.foldl (fun acc e => insertKey objects acc e.1 e.2) []))
  | .cycler =>
      if !g.named.isEmpty then throw .wrongType
      if g.items.isEmpty then throw .badState
      Render.allocate (.cycler g.items 0)
  | .joiner =>
      let given ← Render.bind g ["sep"] 0
      Render.allocate (.joiner ((Given.nth given 0).getD (.text [',', ' '])) false)
  | .loremIpsum => return .text []

end Folio.Template
