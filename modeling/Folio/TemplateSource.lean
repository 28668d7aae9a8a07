import Folio.Layout
import Folio.Session
import Folio.Source.Frontmatter
import Folio.Template.Engine

/-!
# Where templates come from

A template is opened by a name: the way to its file from one of several
directories, the first that has such a file.  Pages are looked for before
components; where a component is previewed, components come first, so that a page
of the same name does not hide one.

The frontmatter of a template is never rendered.  It is blanked when the template
is loaded, which leaves the lines below it where they are.
-/

namespace Folio

open Text

/-- The names that lead from a directory to the file of a template; a name that
goes up a directory leads nowhere. -/
def templateNames? (name : String) : Option (List String) :=
  let pieces := splitAt '/' name.toList
  if pieces.contains ['.', '.'] then none
  else some ((pieces.filter fun piece => !piece.isEmpty && piece ≠ ['.']).map String.ofList)

/-- The file of a template: that of the first directory that has one. -/
def findTemplate (t : FileTree) (roots : List Path) (name : String) : Option Path := do
  let names ← templateNames? name
  (roots.map fun root => (⟨root.anchor, root.parts ++ names⟩ : Path)).find? t.hasFile

/-- The file of a template and its text, without frontmatter. -/
def openSource (t : FileTree) (roots : List Path) (name : String) :
    Except Template.Fault (Path × List Char) :=
  match findTemplate t roots name with
  | none => .error .notFound
  | some file =>
      match t.readText file with
      | .ok text => .ok (file, Source.blankFrontmatter text)
      | .error _ => .error .notText

/-- The loader of the templates in some directories. -/
def loaderOf (t : FileTree) (roots : List Path) : Template.Loader :=
  fun name => (openSource t roots name).map (·.2)

namespace Layout

/-- Where the templates that a page uses are looked for. -/
def pageRoots (l : Layout) : List Path :=
  l.searchRoots

/-- Where the templates that a preview uses are looked for. -/
def previewRoots (l : Layout) : List Path :=
  [l.components, l.elements, l.pages]

end Layout

end Folio
