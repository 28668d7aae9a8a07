import Folio.Template.Perform
import Folio.Template.StatementReader
import Folio.Template.WellFormed

/-!
# The template engine

Templates are opened by name through a loader and run with values for names.  What
they do is bounded: a machine may go only so deep, so that templates which include
or extend one another without end fail.

Nothing that a template does reaches beyond the store: it reads other templates
through the loader and gives a text.
-/

namespace Folio.Template

/-- Where the texts of templates come from, by name. -/
abbrev Loader := String → Except Fault (List Char)

namespace Engine

/-- Reads a template: its statements, if they are well-formed. -/
def read (name : String) (source : List Char) : Except Fault ParsedTemplate := do
  let body ← statements source
  if isWellFormed body then return ⟨name, body⟩ else throw .illFormed

/-- Opens a template by name: its text and its statements. -/
def openTemplate (load : Loader) (name : String) : Except Fault (List Char × ParsedTemplate) := do
  let source ← load name
  return (source, ← read name source)

/-- Runs a template in a context, and then the template that it extends. -/
def renderWith (m : Machine) (t : ParsedTemplate) (context : Nat) : Render (List Char) := do
  let k := (← get).extended.size
  modify fun s => { s with extended := s.extended.push none }
  let own ←
    if undeclared "self" t.body then
      pure [("self", ← Render.allocate (.ownBlocks context))]
    else pure []
  let frames ← Render.startAlone context own t.body
  let extending := Statement.anyExtends t.body
  let text ← m.run ⟨context, frames, true, if extending then some k else none⟩ t.body
  match ((← get).extended[k]?).join with
  | some parent => return text ++ (← m.render parent context)
  | none => return text

/-- The machine that may go so deep. -/
def machine (load : Loader) : Nat → Machine
  | 0 =>
      { evaluate := fun _ _ => throw .tooDeep
        run := fun _ _ => throw .tooDeep
        call := fun _ _ _ => throw .tooDeep
        filter := fun _ _ _ => throw .tooDeep
        openTemplate := fun _ => .error .tooDeep
        render := fun _ _ => throw .tooDeep }
  | depth + 1 =>
      let m := machine load depth
      { evaluate := evaluateWith m
        run := performAll m
        call := callValue m
        filter := filterWith m
        openTemplate := openTemplate load
        render := renderWith m }

/-- How deep templates may go. -/
def maxDepth : Nat := 2000

/-! ## Values of data -/

mutual

/-- Data as a value. -/
def ofData : Data.Value → Render Value
  | .null => return .null
  | .bool b => return .bool b
  | .int n => return .int n
  | .float x => return .float x
  | .text s => return .text s.toList
  | .date d => return .date d
  | .dateTime d => return .dateTime d
  | .bytes content => return .bytes content
  | .list items => do Render.newList (← ofItems items)
  | .tuple items => return .tuple (← ofItems items)
  | .set items => return .set (← ofItems items)
  | .map entries => do Render.allocate (.mapping (← ofEntries entries))

/-- Several data as values. -/
def ofItems : List Data.Value → Render (List Value)
  | [] => return []
  | v :: rest => return (← ofData v) :: (← ofItems rest)

/-- Data under keys as values. -/
def ofEntries : List (Data.Value × Data.Value) → Render (List (Value × Value))
  | [] => return []
  | (k, v) :: rest => return (← ofData k, ← ofData v) :: (← ofEntries rest)

end

/-! ## Running templates -/

/-- Runs a template with values for names. -/
def render (load : Loader) (t : ParsedTemplate) (names : List (String × Data.Value)) :
    Render (List Char) := do
  let values ← names.mapM fun (n, v) => do return (n, ← ofData v)
  let context ← Render.newContext (contextFor t (Context.putNames builtins values))
  (machine load maxDepth).render t context

/-- Calls what a template lets others import under a name. -/
def callMember (load : Loader) (source : List Char) (t : ParsedTemplate) (name : String)
    (argument : Data.Value) : Render (List Char) := do
  let m := machine load maxDepth
  match ← Render.ownField? (← sharedLibrary m source t) name with
  | none => throw .noAttribute
  | some member =>
      let context ← Render.newContext (contextFor t [])
      let result ← m.call context member (Given.ofItems [← ofData argument])
      Render.shown result

end Engine

end Folio.Template
