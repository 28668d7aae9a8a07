import Folio.Output.Document
import Folio.Output.Page
import Folio.States

/-!
# Rendering components

A component that has a macro is shown once for each of its states: the macro is
called with what the state holds, and the text that it gives is written as a
document.  The index of components lists what was written, as a page and as data.
-/

namespace Folio

/-- A component to be shown: its file, its place among the components, and the name
of its macro. -/
structure ShownComponent where
  file : Path
  rel : String
  routine : String
  deriving Repr, DecidableEq

namespace ShownComponent

/-- What a component is called in the index: its place without its ending. -/
def id (c : ShownComponent) : String :=
  String.ofList (dropSuffix templateSuffix c.rel.toList)

end ShownComponent

/-- Writes the preview of a component in a state to a file. -/
def producePreview (c : ShownComponent) (state : ComponentState) (target : Path) :
    Step Unit := do
  let load := loaderOf (← Step.files) (← Step.layout).previewRoots
  let (source, template) ←
    Step.orRaise ((Template.Engine.openTemplate load c.rel).mapError .template)
  let body ← Step.inPreviews
    (Template.Engine.callMember load source template c.routine state.props)
  let stylesheet ← Step.stylesheetHref target
  Step.act (writePage target (previewDocument c.id state.name stylesheet body))

/-- Shows a component in a state and records the preview; gives the link to it if it
could be rendered. -/
def renderState (c : ShownComponent) (d : Dependencies) (tags : List String)
    (state : ComponentState) : Step (Option PreviewLink) := do
  let l ← Step.layout
  let target := l.componentsOut / c.id / (state.name ++ outputSuffix)
  match ← Step.attempt (producePreview c state target) with
  | .error (.raised cause) =>
      Step.failRendering target cause
      return none
  | .error failure => throw failure
  | .ok () =>
      let rel := target.textBelow l.componentsOut
      Step.act (Action.info "renderer" s!"Built component {rel}")
      Step.count fun r => { r with previews := r.previews + 1 }
      let m ← Step.orRaise ((← get).manifest.addState (← Step.files) ("components/" ++ rel)
        c.file c.routine d tags)
      Step.setManifest m
      return some ⟨state.name, rel⟩

/-- Shows a component in all its states; gives its place in the index if there is a
preview of it. -/
def renderStates (c : ShownComponent) (text : List Char) : Step (Option ComponentListing) := do
  let l ← Step.layout
  Step.act (ensureDirectory (l.componentsOut / c.id))
  let d ← Step.act (scan l c.file)
  let tags := (Source.tags text).map String.ofList
  let states ← Step.act (loadStates c.file)
  match ← states.filterMapM (renderState c d tags) with
  | [] => return none
  | links => return some ⟨c.id, links⟩

/-- Shows the component of a file, if it has a macro. -/
def renderComponent (file : Path) : Step (Option ComponentListing) := do
  match (← Step.files).readText file with
  | .error cause =>
      if cause.isReadFault then
        Step.failRendering file cause
        return none
      else throw (.raised cause)
  | .ok text =>
      match Source.firstMacroName? text with
      | none =>
          Step.act (Action.debug "renderer" s!"Skipping {file}: no macro definition")
          return none
      | some name =>
          let rel := file.textBelow (← Step.layout).components
          renderStates ⟨file, rel, String.ofList name⟩ text

/-- Shows all components; gives the index of the previews. -/
def renderComponents : Step (List ComponentListing) := do
  let l ← Step.layout
  let files ← Step.orRaise (filesIn (← Step.files) l.components [templateSuffix])
  files.filterMapM renderComponent

/-! ## The index -/

open Data in
/-- The index as data. -/
def indexData (components : List ComponentListing) : Json.Document :=
  .list (components.map fun c =>
    .object [("id", .text c.id), ("states", .list (c.states.map fun p =>
      .object [("name", .text p.name), ("outRel", .text p.target)]))])

/-- Writes the index as a page and as data. -/
def produceIndex (l : Layout) (components : List ComponentListing) : Action Unit := do
  let target := l.componentsOut / "index.html"
  let stylesheet := Path.relativeHref Path.top target.parent l.stylesheetOut
  writePage target (indexDocument components stylesheet)
  let t ← Action.orRaise ((← Action.files).writeText (l.componentsOut / "index.json")
    (Data.Json.write (indexData components)))
  Action.setFiles t

/-- Writes the index of components, if there are any; a failure is reported. -/
def writeIndex (l : Layout) (components : List ComponentListing) : Action Unit := do
  if !components.isEmpty then
    match ← Action.attempt (produceIndex l components) with
    | .ok () => return ()
    | .error (.raised cause) =>
        if cause.isFileFault then
          Action.warn "renderer" s!"Failed writing components index: {cause}"
        else throw (.raised cause)
    | .error failure => throw failure

end Folio
