import Folio.Markup.Prettify
import Folio.Resolve

/-!
# Writing output

The output directory of a space holds rendered pages, previews of components and a
stylesheet.  Pages and previews are made anew by every build, and their
directories are emptied first; whatever else lies in the output directory stays.

A directory that cannot be made or emptied ends the build.
-/

namespace Folio

/-- Ends the build because of a fault of the file system. -/
def failBuild {α : Type} (message : String) (fault : FileFault) : Action α :=
  let cause := Cause.file fault
  throw (if cause.isFileFault then .build message cause else .raised cause)

/-- Makes a directory of the output with all that are missing above it. -/
def ensureDirectory (p : Path) : Action Unit := do
  let (t, fault) := (← Action.files).makeDirectories p
  Action.setFiles t
  match fault with
  | none => return ()
  | some fault => failBuild s!"Cannot create output directory {p}" fault

/-- A tree without a directory, if it is there. -/
def FileTree.dropDirectory (t : FileTree) (p : Path) : Except FileFault FileTree := do
  if ← t.pathExists p then t.removeDirectory p else return t

/-- Empties a directory of the output, or makes it. -/
def renewDirectory (p : Path) : Action Unit := do
  match (← Action.files).dropDirectory p with
  | .ok t => Action.setFiles t
  | .error fault => failBuild s!"Cannot clean output directory {p}" fault
  ensureDirectory p

/-- Makes the output directory, with empty directories for pages and previews. -/
def prepareOutput (l : Layout) : Action Unit := do
  ensureDirectory l.output
  renewDirectory l.pagesOut
  renewDirectory l.componentsOut

/-- Writes a page of the output, pretty-printed. -/
def writePage (p : Path) (html : List Char) : Action Unit := do
  ensureDirectory p.parent
  let text ← Action.orRaise ((Markup.prettify Markup.defaultWidth html).mapError Cause.markup)
  let t ← Action.orRaise ((← Action.files).writeText p text)
  Action.setFiles t

/-- Copies the stylesheet of a space to its output; gives where it is then.  A
missing stylesheet, or one that cannot be copied, is reported. -/
def copyStylesheet (l : Layout) : Action (Option Path) := do
  let t ← Action.files
  match ← Action.orRaise (firstFile t l.stylesheetCandidates) with
  | none =>
      let tried := ", ".intercalate (l.stylesheetCandidates.map Path.toString)
      Action.warn "renderer" s!"{stylesheetName} not found in {tried}"
      return none
  | some source =>
      match t.copyFile source l.stylesheetOut with
      | .ok t =>
          Action.setFiles t
          return some l.stylesheetOut
      | .error fault =>
          Action.warn "renderer" s!"Failed copying stylesheet {source}: {Cause.file fault}"
          return none

end Folio
