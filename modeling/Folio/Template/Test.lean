import Folio.Template.Compute
import Folio.Template.Filter

/-!
# Tests

A test tells whether something is true of a value.
-/

namespace Folio.Template.Test

open Text

/-- The tests that compare a value with another, with what they compare. -/
def comparisons : List (String × Comparison) :=
  [("==", .equal), ("eq", .equal), ("equalto", .equal), ("!=", .notEqual), ("ne", .notEqual),
    (">", .greater), ("gt", .greater), ("greaterthan", .greater), (">=", .greaterEqual),
    ("ge", .greaterEqual), ("<", .less), ("lt", .less), ("lessthan", .less),
    ("<=", .lessEqual), ("le", .lessEqual), ("in", .isIn)]

/-- All tests. -/
def names : List String :=
  comparisons.map (·.1) ++
    ["boolean", "callable", "defined", "divisibleby", "escaped", "even", "false", "filter", "float",
      "integer", "iterable", "lower", "mapping", "none", "number", "odd", "sameas", "sequence",
      "string", "test", "true", "undefined", "upper"]

/-- Whether a value can be called. -/
def isCallable (v : Value) : Render Bool := do
  match v with
  | .undefined => return true
  | .method _ _ => return true
  | .builtin _ => return true
  | .object id =>
      match ← Render.object? id with
      | some (.routine _) => return true
      | some (.blockCall _ _) => return true
      | some (.joiner _ _) => return true
      | some (.loop _) => return true
      | _ => return false
  | _ => return false

/-- Whether a value has items. -/
def isIterable (v : Value) : Render Bool := do
  match v with
  | .object id =>
      match ← Render.object? id with
      | some (.stream _) => return true
      | some (.loop _) => return true
      | _ => return (← Render.items? v).isSome
  | _ => return (← Render.items? v).isSome

/-- Whether a value has a length and items by number or key. -/
def isSequence (v : Value) : Render Bool := do
  match v with
  | .set _ => return false
  | .view _ _ => return false
  | .object id =>
      match ← Render.object? id with
      | some (.loop _) => return false
      | _ => return (← Render.length? v).isSome
  | _ => return (← Render.length? v).isSome

/-- Whether two values are one: the same object, or alike in kind and value. -/
def isSame (a b : Value) : Render Bool := do
  match a, b with
  | .object i, .object j => return i = j
  | .bool _, .bool _ => Render.equal a b
  | .int _, .int _ => Render.equal a b
  | .float _, .float _ => Render.equal a b
  | .text _, .text _ => Render.equal a b
  | .null, .null => return true
  | .undefined, .undefined => return false
  | .builtin f, .builtin g => return f = g
  | _, _ => return false

/-- The remainder of a value by a number. -/
def remainder (v by_ : Value) : Render Value :=
  Render.compute .remainder v by_

/-- A test of what kind of value something is. -/
def ofKind? (name : String) (v : Value) : Option (Render Bool) :=
  match name with
  | "defined" => some (return match v with
      | .undefined => false
      | _ => true)
  | "undefined" => some (return match v with
      | .undefined => true
      | _ => false)
  | "none" => some (return match v with
      | .null => true
      | _ => false)
  | "boolean" => some (return match v with
      | .bool _ => true
      | _ => false)
  | "true" => some (return match v with
      | .bool b => b
      | _ => false)
  | "false" => some (return match v with
      | .bool b => !b
      | _ => false)
  | "integer" => some (return match v with
      | .int _ => true
      | _ => false)
  | "float" => some (return match v with
      | .float _ => true
      | _ => false)
  | "number" => some (return v.number?.isSome)
  | "string" => some (return v.chars?.isSome)
  | "escaped" => some (return match v with
      | .safe _ => true
      | _ => false)
  | "mapping" => some (return (← Render.entries? v).isSome)
  | "callable" => some (isCallable v)
  | "iterable" => some (isIterable v)
  | "sequence" => some (isSequence v)
  | _ => none

/-- A test of the size or spelling of a value. -/
def ofContent? (name : String) (v : Value) (g : Given) : Option (Render Bool) :=
  match name with
  | "odd" => some do
      Render.nothing g
      Render.equal (← remainder v (.int 2)) (.int 1)
  | "even" => some do
      Render.nothing g
      Render.equal (← remainder v (.int 2)) (.int 0)
  | "divisibleby" => some do
      let given ← Render.bind g ["num"] 1
      Render.equal (← remainder v ((Given.nth given 0).getD .null)) (.int 0)
  | "lower" => some do
      Render.nothing g
      return allCased lowerChar (← Render.shown v)
  | "upper" => some do
      Render.nothing g
      return allCased upperChar (← Render.shown v)
  | "sameas" => some do
      let given ← Render.bind g ["other"] 1
      isSame v ((Given.nth given 0).getD .null)
  | "filter" => some do
      Render.nothing g
      return (v.chars?.map fun s => Filter.names.contains (String.ofList s)).getD false
  | "test" => some do
      Render.nothing g
      return (v.chars?.map fun s => names.contains (String.ofList s)).getD false
  | _ => none

/-- Applies a test. -/
def apply (name : String) (v : Value) (g : Given) : Render Bool :=
  match comparisons.lookup name with
  | some comparison => do
      let given ← Render.bind g ["other"] 1
      Render.holds comparison v ((Given.nth given 0).getD .null)
  | none =>
      match ofKind? name v with
      | some found => do
          Render.nothing g
          found
      | none => (ofContent? name v g).getD (throw .badState)

end Folio.Template.Test
