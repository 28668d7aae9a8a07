import Folio.Session

/-!
# States of a component

A component is shown once for each of its states, which a file beside it lists:
an object whose members are states by name.  A state is the object that the
component is shown with, or holds it under `props`.  A component without states
has one, `default`, with an empty object.
-/

namespace Folio

open Text

/-- A state of a component: its name, and what the component is shown with. -/
structure ComponentState where
  name : String
  props : Data.Value
  deriving Repr

/-- Whether a name of a state can be the name of a file. -/
def isStateName (name : String) : Bool :=
  name ≠ "" && name ≠ "." && name ≠ ".." && !name.toList.contains '/' && !name.toList.contains '\\'

/-- What a component is shown with in a state. -/
def propsOf (definition : Data.Value) : Data.Value :=
  let whole := if definition.isEmpty then .map [] else definition
  match definition with
  | .map items => (Data.Value.field? items "props").getD whole
  | _ => whole

/-- The members of the file of states, none if it is missing or no object. -/
def stateMembers (component states : Path) : Action (List (Data.Value × Data.Value)) := do
  let t ← Action.files
  if ← Action.orRaise ((t.isFile states).mapError Cause.file) then
    let read := do
      let text ← t.readText states
      (Data.Json.read text).mapError Cause.json
    match read with
    | .ok (.map items) => return items
    | .ok _ =>
        Action.warn "renderer" s!"States JSON for {component.name} must be an object"
        return []
    | .error cause =>
        Action.warn "renderer" s!"Failed to parse states JSON for {component.name}: {cause}"
        return []
  else return []

/-- The states among the members of a file; those that no file can be named for
are reported. -/
def readStates (component : Path) :
    List (Data.Value × Data.Value) → Action (List ComponentState)
  | [] => return []
  | (.text name, definition) :: rest => do
      if isStateName name then
        return ⟨name, propsOf definition⟩ :: (← readStates component rest)
      else
        Action.warn "renderer"
          ("Skipping state " ++ quoted name ++ s!" of {component.name}: not a valid file name")
        readStates component rest
  | _ :: rest => readStates component rest

/-- The states of the component at a path. -/
def loadStates (component : Path) : Action (List ComponentState) := do
  match component.withName? (component.stem ++ ".states.json") with
  | none => throw (.raised .namelessPath)
  | some path =>
      match ← readStates component (← stateMembers component path) with
      | [] => return [⟨"default", .map []⟩]
      | states => return states

end Folio
