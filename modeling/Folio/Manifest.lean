import Folio.Source.Relationship
import Folio.Check

/-!
# The manifest

What each output was made of: the page, the components and elements it depends
on, its tags, and its relationships.  Tags alone are kept a second time, by
output, for the canvas.  Both are written as JSON into the output directory.
-/

namespace Folio

open Data

/-- A template named in the manifest. -/
structure SourceRef where
  name : String
  path : Path
  deriving Repr, DecidableEq

/-- The entry of one output.  The preview of a component has no page. -/
structure ManifestEntry where
  page : Option SourceRef
  components : List SourceRef
  elements : List SourceRef
  relationships : Option (List (String × List String))
  tags : List String
  deriving Repr, DecidableEq

/-- The manifest of a space in the making, with the names of components that were
looked up. -/
structure Manifest where
  layout : Layout
  entries : List (String × ManifestEntry)
  canvas : List (String × List String)
  names : List (Path × String)
  deriving Repr

/-- Puts a value under a key: in the place of the key, else at the end. -/
def putKey {κ α : Type} [DecidableEq κ] (items : List (κ × α)) (key : κ) (value : α) :
    List (κ × α) :=
  if items.any fun item => item.1 = key then
    items.map fun item => if item.1 = key then (key, value) else item
  else items ++ [(key, value)]

namespace Manifest

/-- The name of the file that holds the manifest. -/
def fileName : String := "manifest.json"

/-- The name of the file that holds the tags. -/
def canvasFileName : String := "canvas-metadata.json"

/-- A manifest without entries. -/
def start (layout : Layout) : Manifest :=
  ⟨layout, [], [], []⟩

/-- The name of a component: that of its first macro, or the stem of its file. -/
def nameOf (t : FileTree) (p : Path) : Except Cause String :=
  match t.readText p with
  | .ok text => .ok (((Source.firstMacroName? text).map String.ofList).getD p.stem)
  | .error cause => if cause.isReadFault then .ok p.stem else .error cause

/-- The name of a component, looked up once. -/
def componentName (m : Manifest) (t : FileTree) (p : Path) : Except Cause (String × Manifest) :=
  match m.names.lookup p with
  | some name => .ok (name, m)
  | none => do
      let name ← nameOf t p
      return (name, { m with names := m.names ++ [(p, name)] })

/-- Components by name and path. -/
def componentRefs (m : Manifest) (t : FileTree) :
    List Path → Except Cause (List SourceRef × Manifest)
  | [] => .ok ([], m)
  | p :: rest => do
      let (name, m) ← m.componentName t p
      let (refs, m) ← m.componentRefs t rest
      return (⟨name, p⟩ :: refs, m)

/-- Elements by stem and path, in order. -/
def elementRefs (d : Dependencies) : List SourceRef :=
  (Path.sortDistinct d.elements).map fun p => ⟨p.stem, p⟩

/-- Puts the entry of an output, and its tags if it has any. -/
def record (m : Manifest) (key : String) (entry : ManifestEntry) : Manifest :=
  let m := if entry.tags.isEmpty then m else { m with canvas := putKey m.canvas key entry.tags }
  { m with entries := putKey m.entries key entry }

/-- Records a rendered page; gives its key. -/
def addPage (m : Manifest) (t : FileTree) (page : Path) (d : Dependencies) (tags : List String)
    (relationships : List (String × List String)) (related : Bool) :
    Except Cause (String × Manifest) := do
  match m.layout.pageKey? page with
  | none => throw .namelessPath
  | some key =>
      let (components, m) ← m.componentRefs t (Path.sortDistinct d.components)
      let entry : ManifestEntry :=
        ⟨some ⟨page.stem, page⟩, components, elementRefs d,
          if related then some relationships else none, tags⟩
      return (key, m.record key entry)

/-- Records the preview of a component, which comes before those it depends on. -/
def addState (m : Manifest) (t : FileTree) (key : String) (component : Path) (name : String)
    (d : Dependencies) (tags : List String) : Except Cause Manifest := do
  let entry ← component.resolved.mapError Cause.ofUnusable
  let (nested, m) ← m.componentRefs t ((Path.sortDistinct d.components).filter (· ≠ entry))
  return m.record key ⟨none, ⟨name, entry⟩ :: nested, elementRefs d, none, tags⟩

/-! ## Writing -/

/-- A template as JSON. -/
def refDocument (r : SourceRef) : Json.Document :=
  .object [("name", .text r.name), ("path", .text r.path.toString)]

/-- A list of texts as JSON. -/
def textsDocument (texts : List String) : Json.Document :=
  .list (texts.map .text)

/-- An entry as JSON. -/
def entryDocument (e : ManifestEntry) : Json.Document :=
  let page := match e.page with
    | some r => refDocument r
    | none => .null
  let relationships := match e.relationships with
    | some rs =>
        [("relationships", Json.Document.object (rs.map fun (k, v) => (k, textsDocument v)))]
    | none => []
  let tags := if e.tags.isEmpty then [] else [("tags", textsDocument e.tags)]
  .object ([("page", page), ("components", .list (e.components.map refDocument)),
    ("elements", .list (e.elements.map refDocument))] ++ relationships ++ tags)

/-- The entries as JSON. -/
def document (m : Manifest) : Json.Document :=
  .object (m.entries.map fun (key, entry) => (key, entryDocument entry))

/-- The tags as JSON. -/
def canvasDocument (m : Manifest) : Json.Document :=
  .object (m.canvas.map fun (key, tags) => (key, .object [("tags", textsDocument tags)]))

/-- Writes one of the files; a failure is reported. -/
def writeFile (l : Layout) (name : String) (d : Json.Document) (count : Nat) : Action Bool := do
  let target := l.output / name
  match (← Action.files).writeText target (Json.write d) with
  | .ok t =>
      Action.setFiles t
      Action.info "manifest" s!"Wrote {name} with {count} entries"
      return true
  | .error cause =>
      Action.warn "manifest" s!"Failed writing {target}: {cause}"
      return false

/-- Writes both files; whether both were written. -/
def write (m : Manifest) : Action Bool := do
  let first ← writeFile m.layout fileName m.document m.entries.length
  let second ← writeFile m.layout canvasFileName m.canvasDocument m.canvas.length
  return first && second

end Manifest

end Folio
