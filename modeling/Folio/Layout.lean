import Folio.Path
import Folio.Text.LetterCase

/-!
# Layout of a space

A space has a directory of templates and a directory of output.  The templates
lie in four directories with fixed names, three of which are searched for
templates; which of these a path lies in is its kind.
-/

namespace Folio

/-- What a template is for. -/
inductive RootKind
  | page
  | component
  | element
  deriving Repr, DecidableEq

namespace RootKind

/-- The name of a kind. -/
def name : RootKind → String
  | .page => "page"
  | .component => "component"
  | .element => "element"

/-- The directory that holds the templates of a kind. -/
def directory : RootKind → String
  | .page => "pages"
  | .component => "components"
  | .element => "elements"

/-- All kinds, in the order in which their directories are searched. -/
def all : List RootKind :=
  [.page, .component, .element]

end RootKind

/-- The directory of the workspace that holds its configuration. -/
def sentinelName : String := ".pagesmith"

/-- The ending of templates. -/
def templateSuffix : String := ".tmpl"

/-- The ending of rendered pages. -/
def outputSuffix : String := ".html"

/-- The endings that a page may have. -/
def pageSuffixes : List String :=
  [templateSuffix, outputSuffix]

/-- The name of the stylesheet. -/
def stylesheetName : String := "design-system.css"

/-- Whether a text ends in `suffix`, which is in lower case, in any case. -/
def hasSuffix (suffix : String) (text : List Char) : Bool :=
  suffix.toList.isSuffixOf (Text.lower text)

/-- A text without as many characters at its end as `suffix` has. -/
def dropSuffix (suffix : String) (text : List Char) : List Char :=
  text.take (text.length - suffix.length)

/-- The output path of a template or page: its known ending becomes that of
rendered pages. -/
def withOutputSuffix (text : List Char) : List Char :=
  match pageSuffixes.find? fun suffix => hasSuffix suffix text with
  | some suffix => dropSuffix suffix text ++ outputSuffix.toList
  | none => text

/-- Where a space keeps its templates and its output, all from the root. -/
structure Layout where
  workspace : Path
  templates : Path
  output : Path
  deriving Repr, DecidableEq

namespace Layout

/-- The layout of a space whose directories are given from the workspace. -/
def create (here workspace templates output : Path) : Except Path.Unusable Layout := do
  let root ← Path.resolve here workspace
  return ⟨root, ← Path.resolve root templates, ← Path.resolve root output⟩

/-- The directory of the templates of a kind. -/
def rootOf (l : Layout) (kind : RootKind) : Path :=
  l.templates / kind.directory

/-- The directory of the pages. -/
def pages (l : Layout) : Path :=
  l.rootOf .page

/-- The directory of the components. -/
def components (l : Layout) : Path :=
  l.rootOf .component

/-- The directory of the elements. -/
def elements (l : Layout) : Path :=
  l.rootOf .element

/-- The directory of the space's own stylesheet. -/
def styles (l : Layout) : Path :=
  l.templates / "styles"

/-- The directories that are searched for templates, in order. -/
def searchRoots (l : Layout) : List Path :=
  RootKind.all.map l.rootOf

/-- Where rendered pages go. -/
def pagesOut (l : Layout) : Path :=
  l.output / "pages"

/-- Where component previews go. -/
def componentsOut (l : Layout) : Path :=
  l.output / "components"

/-- Where the stylesheet goes. -/
def stylesheetOut (l : Layout) : Path :=
  l.output / stylesheetName

/-- Where the stylesheet is looked for: the space's own first. -/
def stylesheetCandidates (l : Layout) : List Path :=
  [l.styles / stylesheetName, l.workspace / sentinelName / "styles" / stylesheetName]

/-- The kind of the template at a path from the root. -/
def kindOf (l : Layout) (p : Path) : Option RootKind :=
  RootKind.all.find? fun kind => Path.isUnder (l.rootOf kind) p

/-- The key of a page in the manifest: its output path. -/
def pageKey? (l : Layout) (p : Path) : Option String :=
  (p.relativeTo? l.pages).map fun rel =>
    "pages/" ++ String.ofList (withOutputSuffix rel.toString.toList)

/-- The directories that a space is expected to have. -/
def conventional (l : Layout) : List Path :=
  l.searchRoots ++ [l.styles]

end Layout

end Folio
