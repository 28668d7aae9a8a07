import Folio.Output.Preview
import Folio.Space

/-!
# Building a workspace

`buildOutput` runs all steps of the build of a space in order: pages first, then the
components and their index, and last the stylesheet.

The spaces of a workspace are built one after another; they share nothing but the
files.  A workspace that declares no spaces has one with fixed directories, whose
output is also copied to where it is expected by what reads it there: the rendered
pages to a directory of their own, the stylesheet beside it.
-/

namespace Folio

/-! ## One space -/

/-- Builds all output of a space; gives what has been built. -/
def buildOutput : Step BuildResult := do
  let l ← Step.layout
  Step.act (prepareOutput l)
  let rendered ← renderPages
  copyStaticPages rendered
  let index ← renderComponents
  Step.count fun r => { r with index := index }
  Step.act (writeIndex l index)
  let stylesheet ← Step.act (copyStylesheet l)
  Step.count fun r => { r with stylesheet := stylesheet }
  return (← get).result

/-- The directories that a space is expected to have and has not. -/
def missingDirectories (t : FileTree) (l : Layout) : Except Cause (List Path) :=
  l.conventional.filterM fun p => return !(← (t.isDirectory p).mapError Cause.file)

/-- Reports the directories that a space is expected to have and has not. -/
def validateSpace (l : Layout) : Action (List Path) := do
  let missing ← Action.orRaise (missingDirectories (← Action.files) l)
  for p in missing do
    Action.warn "orchestrator" s!"Missing template directory: {p}"
  return missing

/-- What the build of a space gave: its output, the number of entries of its
manifest, and whether the manifest was written. -/
structure SpaceResult where
  space : Space
  output : BuildResult
  entries : Nat
  manifestWritten : Bool
  deriving Repr, DecidableEq

/-- Builds a space. -/
def buildSpace (s : Space) (l : Layout) (titleSuffix : String) : Action SpaceResult := do
  Action.info "orchestrator" s!"Building space {s.name}: {l.templates} -> {l.output}"
  let _ ← validateSpace l
  let (output, stage) ← Step.fromStart l titleSuffix buildOutput
  let written ← stage.manifest.write
  return ⟨s, output, stage.manifest.entries.length, written⟩

/-! ## Copies of the output of the built-in space -/

/-- Where the pages of the built-in space are copied to, in the workspace. -/
def mirrorName : String := sentinelName ++ "/design_iterations"

/-- Replaces the copy of the rendered pages at a path. -/
def replaceCopy (l : Layout) (target : Path) : Action Unit := do
  let fail := fun fault => failBuild s!"Cannot mirror {l.pagesOut} to {target}" fault
  match (← Action.files).dropDirectory target with
  | .error fault => fail fault
  | .ok t =>
      let (t, fault) := t.copyDirectory l.pagesOut target
      Action.setFiles t
      match fault with
      | some fault => fail fault
      | none => return ()

/-- Copies the stylesheet of the output to the sentinel directory of the workspace,
if there is one; a failure is reported. -/
def copyOutputStylesheet (l : Layout) : Action Unit := do
  let t ← Action.files
  let target := l.workspace / sentinelName / stylesheetName
  if ← Action.orRaise ((t.isFile l.stylesheetOut).mapError Cause.file) then
    match t.copyFile l.stylesheetOut target with
    | .ok t => Action.setFiles t
    | .error fault =>
        Action.warn "orchestrator"
          s!"Failed copying {l.stylesheetOut} to {target}: {Cause.file fault}"
  else
    Action.warn "orchestrator"
      s!"No {stylesheetName} in {l.output}; skipping compatibility copy"

/-- Copies the rendered pages and the stylesheet to where they are expected; gives
the directory of the pages. -/
def mirrorOutput (l : Layout) : Action Path := do
  let target := l.workspace / mirrorName
  replaceCopy l target
  Action.info "orchestrator" s!"Mirrored {l.pagesOut} to {target}"
  copyOutputStylesheet l
  return target

/-! ## All spaces -/

/-- What the build of a workspace gave. -/
structure WorkspaceResult where
  config : SpaceConfig
  spaces : List SpaceResult
  deriving Repr, DecidableEq

namespace WorkspaceResult

/-- The files that could not be built. -/
def failures (r : WorkspaceResult) : List Path :=
  r.spaces.flatMap (·.output.failures)

end WorkspaceResult

/-- Builds spaces in order. -/
def buildSpaces (c : SpaceConfig) (titleSuffix : String) :
    List Space → Action (List SpaceResult)
  | [] => return []
  | s :: rest => do
      let l ← Action.orRaise (c.layout s)
      let result ← buildSpace s l titleSuffix
      if c.legacy then
        let _ ← mirrorOutput l
      return result :: (← buildSpaces c titleSuffix rest)

/-- The spaces of some names, or all spaces if there are none. -/
def chosenSpaces (c : SpaceConfig) (names : List String) : Except Failure (List Space) :=
  if names.isEmpty then .ok c.spaces else names.mapM c.get

/-- Builds the spaces of some names, or all spaces, of the workspace at a path, which
is given from `here`. -/
def buildWorkspace (here workspace : Path) (names : List String) (titleSuffix : String) :
    Action WorkspaceResult := do
  let c ← loadSpaces here workspace
  let targets ← ExceptT.mk (pure (chosenSpaces c names))
  if c.legacy then
    Action.info "orchestrator" "No spaces configuration found; building legacy space"
  return ⟨c, ← buildSpaces c titleSuffix targets⟩

end Folio
