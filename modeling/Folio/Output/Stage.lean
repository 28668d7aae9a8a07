import Folio.Manifest
import Folio.Output.Write
import Folio.TemplateSource

/-!
# A build of a space in progress

What the steps of a build share: the session, the layout of the space, the
manifest in the making, the stores of the templates that run, and what has been
built so far.  A step may fail; what it did before it failed stays done.
-/

namespace Folio

/-- A preview in the index of components: its state, and its file in the output
directory of components. -/
structure PreviewLink where
  name : String
  target : String
  deriving Repr, DecidableEq

/-- A component in the index, with its previews. -/
structure ComponentListing where
  id : String
  states : List PreviewLink
  deriving Repr, DecidableEq

/-- What the build of a space has given. -/
structure BuildResult where
  pagesRendered : Nat
  pagesCopied : Nat
  previews : Nat
  failures : List Path
  index : List ComponentListing
  stylesheet : Option Path
  deriving Repr, DecidableEq

namespace BuildResult

/-- Nothing built. -/
def empty : BuildResult :=
  ⟨0, 0, 0, [], [], none⟩

end BuildResult

/-- A build in progress.  Templates of pages and those of previews run in stores of
their own. -/
structure Stage where
  session : Session
  layout : Layout
  titleSuffix : String
  manifest : Manifest
  pageStore : Template.Store
  previewStore : Template.Store
  result : BuildResult

/-- The title suffix that pages are rendered with unless another is asked for. -/
def defaultTitleSuffix : String := "| Wireframe"

namespace Stage

/-- A build that has not begun. -/
def start (session : Session) (layout : Layout) (titleSuffix : String) : Stage :=
  ⟨session, layout, titleSuffix, Manifest.start layout, Template.Store.empty,
    Template.Store.empty, BuildResult.empty⟩

end Stage

/-- A step of a build. -/
abbrev Step (α : Type) := ExceptT Failure (StateM Stage) α

namespace Step

/-- An action as a step. -/
def act {α : Type} (a : Action α) : Step α :=
  fun s =>
    match a s.session with
    | (outcome, session) => (outcome, { s with session := session })

/-- The outcome of a step as a value. -/
def attempt {α : Type} (a : Step α) : Step (Except Failure α) :=
  fun s =>
    match a s with
    | (outcome, s') => (.ok outcome, s')

/-- The value of a computation, or its cause as a failure. -/
def orRaise {α : Type} (r : Except Cause α) : Step α :=
  act (Action.orRaise r)

/-- Runs something among the templates of pages. -/
def inPages {α : Type} (a : Template.Render α) : Step α :=
  fun s =>
    match a s.pageStore with
    | (outcome, store) =>
        (outcome.mapError fun fault => .raised (.template fault), { s with pageStore := store })

/-- Runs something among the templates of previews. -/
def inPreviews {α : Type} (a : Template.Render α) : Step α :=
  fun s =>
    match a s.previewStore with
    | (outcome, store) =>
        (outcome.mapError fun fault => .raised (.template fault),
          { s with previewStore := store })

/-- The layout of the space. -/
def layout : Step Layout := do
  return (← get).layout

/-- The files as they are now. -/
def files : Step FileTree :=
  act Action.files

/-- Changes what has been built. -/
def count (change : BuildResult → BuildResult) : Step Unit :=
  modify fun s => { s with result := change s.result }

/-- Replaces the manifest. -/
def setManifest (m : Manifest) : Step Unit :=
  modify fun s => { s with manifest := m }

/-- Notes a file that could not be built. -/
def noteFailure (p : Path) : Step Unit :=
  count fun r => { r with failures := r.failures ++ [p] }

/-- Reports and notes a file that could not be rendered. -/
def failRendering (p : Path) (cause : Cause) : Step Unit := do
  act (Action.warn "renderer" s!"Failed rendering {p}: {cause}")
  noteFailure p

/-- The reference from an output file to the stylesheet. -/
def stylesheetHref (target : Path) : Step String := do
  let l ← layout
  return Path.relativeHref Path.top target.parent l.stylesheetOut

/-- Runs a step at the start of a build; gives the build as it is then. -/
def fromStart {α : Type} (l : Layout) (titleSuffix : String) (a : Step α) : Action (α × Stage) :=
  fun session =>
    match a (Stage.start session l titleSuffix) with
    | (outcome, s) => (outcome.map fun value => (value, s), s.session)

end Step

end Folio
