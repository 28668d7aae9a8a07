import Folio.Metadata
import Folio.Output.Stage
import Folio.Source.Tags

/-!
# Rendering and copying pages

Every template among the pages is rendered to a page at the same place in the
output; every page that needs no rendering is copied, unless a rendered page has
taken its place.  A page that fails is noted, and the build goes on.
-/

namespace Folio

/-- The names that lead from a directory to a path below it, as one text. -/
def Path.textBelow (p directory : Path) : String :=
  match p.relativeTo? directory with
  | some rel => rel.toString
  | none => p.toString

/-- Where the page of a template goes, from the output directory of pages, if the
template is at `rel` among the pages. -/
def renderedName (rel : String) : String :=
  String.ofList (dropSuffix templateSuffix rel.toList) ++ outputSuffix

/-- The data that the templates of pages are given. -/
def pageNames (titleSuffix stylesheet : String) (data : List (Data.Value × Data.Value)) :
    List (String × Data.Value) :=
  [("title_suffix", .text titleSuffix), ("stylesheet_href", .text stylesheet),
    ("page", .map data)]

/-- Renders a page, which is at `rel` among the pages, to a file; gives the text of
its template. -/
def producePage (page : Path) (rel : String) (target : Path) : Step (List Char) := do
  let t ← Step.files
  let text ← Step.orRaise (t.readText page)
  let load := loaderOf t (← Step.layout).pageRoots
  let (_, template) ← Step.orRaise ((Template.Engine.openTemplate load rel).mapError .template)
  let stylesheet ← Step.stylesheetHref target
  let data ← Step.act (frontmatterData text page.toString)
  let names := pageNames (← get).titleSuffix stylesheet data
  let html ← Step.inPages (Template.Engine.render load template names)
  Step.act (writePage target html)
  return text

/-- Records a rendered page in the manifest. -/
def recordPage (page : Path) (text : List Char) : Step Unit := do
  let l ← Step.layout
  let d ← Step.act (scan l page)
  let place ← Step.orRaise (page.resolved.mapError Cause.ofUnusable)
  let tags := (Source.tags text).map String.ofList
  let relationships ← Step.act (pageRelationships l place text)
  let listed := Source.Relation.all.map fun r => (r.name, relationships.get r)
  let (_, m) ← Step.orRaise ((← get).manifest.addPage (← Step.files) place d tags listed
    relationships.isInhabited)
  Step.setManifest m

/-- Renders a page and records it; gives its place among the output of pages if it
could be rendered. -/
def renderPage (page : Path) : Step (Option String) := do
  let l ← Step.layout
  let rel := page.textBelow l.pages
  let name := renderedName rel
  match ← Step.attempt (producePage page rel (l.pagesOut / name)) with
  | .error (.raised cause) =>
      Step.failRendering page cause
      return none
  | .error failure => throw failure
  | .ok text =>
      Step.act (Action.info "renderer" s!"Built {name}")
      Step.count fun r => { r with pagesRendered := r.pagesRendered + 1 }
      recordPage page text
      return some name

/-- Renders all pages; gives their places among the output of pages. -/
def renderPages : Step (List String) := do
  let l ← Step.layout
  let pages ← Step.orRaise (filesIn (← Step.files) l.pages [templateSuffix])
  return (← pages.filterMapM renderPage).eraseDups

/-- Copies a page that needs no rendering to a file, pretty-printed. -/
def copyPage (page target : Path) : Action Unit := do
  writePage target (← Action.orRaise ((← Action.files).readText page))

/-- Copies a page to its place, unless it is among those that are taken. -/
def copyStaticPage (taken : List String) (page : Path) : Step Unit := do
  let l ← Step.layout
  let rel := page.textBelow l.pages
  if taken.contains rel then
    Step.act (Action.debug "renderer"
      s!"Skipping {rel}: a rendered page has the same output path")
  else
    match ← Step.attempt (Step.act (copyPage page (l.pagesOut / rel))) with
    | .ok () =>
        Step.act (Action.info "renderer" s!"Copied {rel}")
        Step.count fun r => { r with pagesCopied := r.pagesCopied + 1 }
    | .error (.raised cause) =>
        if cause.isReadFault then
          Step.act (Action.warn "renderer" s!"Failed copying {page}: {cause}")
          Step.noteFailure page
        else throw (.raised cause)
    | .error failure => throw failure

/-- Copies all pages that need no rendering, but those whose places are taken. -/
def copyStaticPages (taken : List String) : Step Unit := do
  let l ← Step.layout
  let pages ← Step.orRaise (filesIn (← Step.files) l.pages [outputSuffix])
  pages.forM (copyStaticPage taken)

end Folio
