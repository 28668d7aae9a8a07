import Folio.Template.Function
import Folio.Template.Test

/-!
# Machines

A machine runs templates.  Its parts need one another — a call runs statements,
statements evaluate expressions — so each is written for a machine that it is
given, and `Engine` ties them together: a machine is made of one that may go one
level less deep.

This module holds what the parts share: the frames that they start and the values
that they assign.
-/

namespace Folio.Template

/-- What runs templates: how an expression is evaluated, statements are run,
something is called, a filter is applied, and how templates are opened and run. -/
structure Machine where
  evaluate : Site → Expr → Render Value
  run : Site → List Statement → Render (List Char)
  call : Nat → Value → Given → Render Value
  filter : String → Value → Given → Render Value
  openTemplate : String → Except Fault (List Char × ParsedTemplate)
  render : ParsedTemplate → Nat → Render (List Char)

namespace Render

/-! ## Starting parts -/

/-- Whether a name is known in the parts around. -/
def knownNames (frames : List Nat) : Render (String → Bool) := do
  let names ← frames.mapM fun id => do return (← frame id).values.map (·.1)
  let all := names.flatten
  return fun n => all.contains n

/-- Gives the names of a part their first values; `frames` are those of the parts
around. -/
def enter (id : Nat) (context : Nat) (frames : List Nat) (b : Bindings) : Render Unit := do
  let c ← Render.context context
  for (name, origin) in b.origins do
    match origin with
    | .parameter => pure ()
    | .context => setName id name (c.find? name)
    | .outer => setName id name (← findName name frames).join
    | .undefined => setName id name none

/-- Starts a part inside another. -/
def startPart (site : Site) (b : Bindings) : Render Site := do
  let id ← newFrame b.assigned
  for (name, _) in b.origins do setName id name none
  enter id site.context site.frames b
  return { site with frames := id :: site.frames, outermost := false }

/-- Ends a part that was started. -/
def endPart (site : Site) : Render Unit :=
  match site.frames with
  | id :: _ => clear id
  | [] => return ()

/-- Starts a part that stands alone, with the names that it is given. -/
def startAlone (context : Nat) (given : List (String × Value)) (body : List Statement) :
    Render (List Nat) := do
  let b := Bindings.ofBody (fun _ => false) (given.map (·.1)) body
  let id ← newFrame b.assigned
  enter id context [] b
  for (name, v) in given do setName id name (some v)
  return [id]

/-! ## Assigning -/

/-- Sets a name of the part that runs. -/
def setHere (site : Site) (name : String) (v : Value) : Render Unit :=
  match site.frames with
  | id :: _ => setName id name (some v)
  | [] => return ()

/-- The value of a name. -/
def valueOf (site : Site) (name : String) : Render Value := do
  match ← findName name site.frames with
  | some (some v) => return v
  | some none => return .undefined
  | none => return ((← Render.context site.context).find? name).getD .undefined

/-- The record that a name stands for. -/
def recordOf (site : Site) (name : String) : Render (Nat × List (Value × Value)) := do
  match ← valueOf site name with
  | .object id =>
      match ← object? id with
      | some (.record fields) => return (id, fields)
      | _ => throw .badState
  | _ => throw .badState

mutual

/-- Assigns a value to a target. -/
def assign (site : Site) : Target → Value → Render Unit
  | .name n, v => setHere site n v
  | .slot record field, v => do
      let (id, fields) ← recordOf site record
      let objects := (← get).objects
      replace id (.record (insertKey objects fields (.text field.toList) v))
  | .tuple targets, v => do
      let values ← items v
      assignAll site targets values

/-- Assigns values to as many targets. -/
def assignAll (site : Site) : List Target → List Value → Render Unit
  | [], [] => return ()
  | t :: targets, v :: values => do
      if targets.length ≠ values.length then throw .badValue
      assign site t v
      assignAll site targets values
  | _, _ => throw .badValue

end

/-- Lets the context have the names that an outermost part assigned. -/
def share (site : Site) (names : List String) (importable : Bool) : Render Unit := do
  if site.outermost then
    for n in names do
      let v ← valueOf site n
      changeContext site.context fun c =>
        let c := c.setVar n v
        if importable then c.exporting n else c.withholding n

/-! ## Output -/

/-- Whether output here gives way to that of an extended template. -/
def givesWay (site : Site) : Render Bool := do
  match site.yields with
  | none => return false
  | some k => return ((← get).extended[k]?).join.isSome

/-- A text as a value, safe where output is escaped. -/
def outputText (context : Nat) (s : List Char) : Render Value := do
  return if (← Render.context context).escapes then .safe s else .text s

end Render

end Folio.Template
