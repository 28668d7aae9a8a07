import Folio.Template.Filter.Json
import Folio.Template.Filter.Number
import Folio.Template.Filter.Sequence
import Folio.Template.Filter.Text

/-!
# Filters

A filter makes a value of another.  The filters here need nothing but the value
and what they are given; those that apply other filters or tests to items stand
beside the evaluator.
-/

namespace Folio.Template.Filter

/-- The filters that apply other filters or tests to items. -/
def itemwiseNames : List String :=
  ["map", "select", "reject", "selectattr", "rejectattr"]

/-- All filters. -/
def names : List String :=
  itemwiseNames ++
    ["abs", "attr", "batch", "capitalize", "center", "count", "d", "default", "dictsort", "e",
      "escape", "filesizeformat", "first", "float", "forceescape", "format", "groupby", "indent",
      "int", "items", "join", "last", "length", "list", "lower", "max", "min", "pprint", "random",
      "replace", "reverse", "round", "safe", "slice", "sort", "string", "striptags", "sum", "title",
      "tojson", "trim", "truncate", "unique", "upper", "urlencode", "urlize", "wordcount",
      "wordwrap", "xmlattr"]

/-- A value, or another where it is undefined or, if asked for, counts as false. -/
def withDefault (v : Value) (g : Given) : Render Value := do
  let given ← Render.bind g ["default_value", "boolean"] 0
  let default := (Given.nth given 0).getD (.text [])
  match v with
  | .undefined => return default
  | _ =>
      if ← Render.flagOr (Given.nth given 1) false then
        return if ← Render.isTrue v then v else default
      else return v

/-- The field of a value that has it of its own. -/
def ownField (v : Value) (g : Given) : Render Value := do
  let given ← Render.bind g ["name"] 1
  let name ← Render.shown ((Given.nth given 0).getD .undefined)
  return (← Render.ownField? v (String.ofList name)).getD .undefined

/-- Applies a filter that needs no other. -/
def apply (name : String) (v : Value) (g : Given) : Render Value :=
  match (ofText? name v g).or ((ofNumber? name v g).or (ofSequence? name v g)) with
  | some found => found
  | none =>
      match name with
      | "default" => withDefault v g
      | "d" => withDefault v g
      | "attr" => ownField v g
      | "tojson" => json v g
      | "pprint" => return .text (← Render.spelled v)
      | _ => throw .badState

end Folio.Template.Filter
