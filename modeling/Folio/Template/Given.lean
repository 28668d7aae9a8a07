import Folio.Template.Field

/-!
# What functions are given

A function names its parameters; values are matched to them by position and by
name.  What does not match is a fault of type.
-/

namespace Folio.Template

namespace Given

/-- The values of parameters, the first `required` of which must be given. -/
def bind (g : Given) (parameters : List String) (required : Nat) :
    Except Fault (List (Option Value)) :=
  let byPosition := parameters.take g.items.length
  if parameters.length < g.items.length then .error .wrongType
  else if g.named.any fun n => byPosition.contains n.1 || !parameters.contains n.1 then
    .error .wrongType
  else
    let values := parameters.zipIdx.map fun (name, i) => (g.items[i]?).or (g.named? name)
    if (values.take required).any Option.isNone then .error .wrongType else .ok values

/-- The value of the parameter at a position, if it is given. -/
def nth (values : List (Option Value)) (i : Nat) : Option Value :=
  (values[i]?).join

end Given

namespace Render

/-- The values of parameters. -/
def bind (g : Given) (parameters : List String) (required : Nat) :
    Render (List (Option Value)) :=
  ofExcept (g.bind parameters required)

/-- Fails unless nothing is given. -/
def nothing (g : Given) : Render Unit := do
  let _ ← bind g [] 0

/-- A value that must be a text. -/
def needText (v : Value) : Render (List Char) :=
  match v.chars? with
  | some s => return s
  | none => throw .wrongType

/-- A value that must be an integer. -/
def needInt (v : Value) : Render Int :=
  match v with
  | .undefined => throw .undefined
  | _ =>
      match v.int? with
      | some n => return n
      | none => throw .wrongType

/-- A parameter that must be a text if it is given. -/
def textOr (v : Option Value) (default : List Char) : Render (List Char) :=
  match v with
  | some v => needText v
  | none => return default

/-- A parameter that must be an integer if it is given. -/
def intOr (v : Option Value) (default : Int) : Render Int :=
  match v with
  | some v => needInt v
  | none => return default

/-- A parameter that counts as true or false. -/
def flagOr (v : Option Value) (default : Bool) : Render Bool :=
  match v with
  | some v => isTrue v
  | none => return default

/-- A parameter that stands for nothing if it is missing or null. -/
def presentText (v : Option Value) : Render (Option (List Char)) :=
  match v with
  | none => return none
  | some .null => return none
  | some v => return some (← needText v)

end Render

end Folio.Template
