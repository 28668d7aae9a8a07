import Folio.Template.Machine

/-!
# Evaluating expressions

What an expression gives in the part where it stands, and the filters that apply
other filters and tests to the items of a value.
-/

namespace Folio.Template

open Render

/-! ## Arguments -/

/-- The names and values of a mapping that is given to a function. -/
def namesOf (v : Value) : Render (List (String × Value)) := do
  match v, ← entries? v with
  | .undefined, _ => throw .wrongType
  | _, none => throw .wrongType
  | _, some entries =>
      entries.mapM fun (k, w) => do return (String.ofList (← needText k), w)

/-- The values of arguments. -/
def given (m : Machine) (site : Site) : Arguments → Render Given
  | ⟨items, named, more, moreNamed⟩ => do
      let items ← items.mapM (m.evaluate site)
      let named ← named.mapM fun (n, e) => do return (n, ← m.evaluate site e)
      let more ←
        match more with
        | some e => Render.items (← m.evaluate site e)
        | none => pure []
      let moreNamed ←
        match moreNamed with
        | some e => namesOf (← m.evaluate site e)
        | none => pure []
      if moreNamed.any fun (n, _) => (named.lookup n).isSome then throw .wrongType
      return ⟨items ++ more, named ++ moreNamed⟩

/-! ## Expressions -/

/-- A value that is written out. -/
def Literal.value : Literal → Value
  | .null => .null
  | .bool b => .bool b
  | .int n => .int n
  | .float x => .float x
  | .text s => .text s

/-- Whether each value stands in its relation to the one before it; the values
after the first that does not are not evaluated. -/
def chain (m : Machine) (site : Site) (left : Value) :
    List (Comparison × Expr) → Render Bool
  | [] => return true
  | (comparison, e) :: rest => do
      let right ← m.evaluate site e
      if ← holds comparison left right then chain m site right rest else return false

/-- Values joined as texts. -/
def joinTexts (context : Nat) (values : List Value) : Render Value := do
  let isSafe := fun (v : Value) => match v with
    | .safe _ => true
    | _ => false
  if (← Render.context context).escapes && values.any isSafe then
    return .safe (← values.mapM escaped).flatten
  else return .text (← values.mapM shown).flatten

/-- A part of a slice, nothing if it is missing. -/
def spanPart (m : Machine) (site : Site) (e : Option Expr) : Render Value := do
  match e with
  | some e => m.evaluate site e
  | none => return .null

/-- The value of an expression. -/
def evaluateWith (m : Machine) (site : Site) : Expr → Render Value
  | .literal value => return value.value
  | .name n => valueOf site n
  | .tuple items => return .tuple (← items.mapM (m.evaluate site))
  | .list items => do newList (← items.mapM (m.evaluate site))
  | .mapping items => do
      newMapping (← items.mapM fun (k, v) => do return (← m.evaluate site k, ← m.evaluate site v))
  | .choose condition value otherwise => do
      if ← isTrue (← m.evaluate site condition) then m.evaluate site value
      else
        match otherwise with
        | some e => m.evaluate site e
        | none => return .undefined
  | .both left right => do
      let v ← m.evaluate site left
      if ← isTrue v then m.evaluate site right else return v
  | .either left right => do
      let v ← m.evaluate site left
      if ← isTrue v then return v else m.evaluate site right
  | .negate operand => do return .bool !(← isTrue (← m.evaluate site operand))
  | .compare first others => do
      return .bool (← chain m site (← m.evaluate site first) others)
  | .compute operation left right => do
      let a ← m.evaluate site left
      let b ← m.evaluate site right
      Render.compute operation a b
  | .joined items => do joinTexts site.context (← items.mapM (m.evaluate site))
  | .minus operand => do signed true (← m.evaluate site operand)
  | .plus operand => do signed false (← m.evaluate site operand)
  | .field subject name => do Render.field (← m.evaluate site subject) name
  | .item subject (.span start stop step) => do
      let v ← m.evaluate site subject
      slice v (← spanPart m site start) (← spanPart m site stop) (← spanPart m site step)
  | .item subject index => do
      let v ← m.evaluate site subject
      Render.item v (← m.evaluate site index)
  | .span _ _ _ => return .null
  | .call subject arguments => do
      let f ← m.evaluate site subject
      m.call site.context f (← given m site arguments)
  | .filter subject name arguments => do
      let v ←
        match subject with
        | some e => m.evaluate site e
        | none => pure .undefined
      m.filter name v (← given m site arguments)
  | .test subject name arguments => do
      let v ← m.evaluate site subject
      return .bool (← Test.apply name v (← given m site arguments))

/-- The value that filters make of a text, the first of them having no subject. -/
def filterText (m : Machine) (site : Site) (text : Value) : Expr → Render Value
  | .filter none name arguments => do m.filter name text (← given m site arguments)
  | .filter (some inner) name arguments => do
      let v ← filterText m site text inner
      m.filter name v (← given m site arguments)
  | e => m.evaluate site e

/-! ## Filters of items -/

/-- A value without its first argument that is a text: the name of a filter or test
for each item. -/
def nameGiven (g : Given) : Option (Value × Given) :=
  match g.items with
  | name :: rest => some (name, { g with items := rest })
  | [] => none

/-- What a filter makes of each item. -/
def mapItems (m : Machine) (items : List Value) (g : Given) : Render (List Value) := do
  match nameGiven g, g.named? "attribute" with
  | some (name, g), _ =>
      let name ← shown name
      items.mapM fun v => m.filter (String.ofList name) v g
  | none, some path =>
      let default := Filter.presentValue (g.named? "default")
      if g.named.any fun n => n.1 ≠ "attribute" && n.1 ≠ "default" then throw .badFilterArgument
      items.mapM (follow (pathParts path) default)
  | none, none => throw .badFilterArgument

/-- The items that a test holds of, or does not. -/
def selectItems (wanted : Bool) (byField : Bool) (items : List Value) (g : Given) :
    Render (List Value) := do
  let (path, g) ←
    if byField then
      match nameGiven g with
      | some (path, g) => pure (some path, g)
      | none => throw .badFilterArgument
    else pure (none, g)
  items.filterM fun v => do
    let subject ←
      match path with
      | some p => follow (pathParts p) none v
      | none => pure v
    let found ←
      match nameGiven g with
      | some (name, g) => do Test.apply (String.ofList (← shown name)) subject g
      | none => isTrue subject
    return found == wanted

/-- Applies a filter. -/
def filterWith (m : Machine) (name : String) (v : Value) (g : Given) : Render Value := do
  if Filter.itemwiseNames.contains name then
    if !(← isTrue v) then return ← newStream []
    let items ← Render.items v
    match name with
    | "map" => newStream (← mapItems m items g)
    | "select" => newStream (← selectItems true false items g)
    | "reject" => newStream (← selectItems false false items g)
    | "selectattr" => newStream (← selectItems true true items g)
    | _ => newStream (← selectItems false true items g)
  else Filter.apply name v g

end Folio.Template
