import Folio.CommandLine.Execute
import Std.Time.Format

/-!
# The program

Reads the files of a workspace from the disk, runs what the command line asks for on
them, and writes what has changed back.  Everything that is decided is decided by
`CommandLine.runProgram`; here files are moved in and out and lines are printed.

The files that are read are those below the workspace and below the directories of
its spaces, and the log file.  Symbolic links are not followed.
-/

namespace Folio.Program

/-! ## Reading files -/

/-- The path of a place on the disk. -/
def diskPath (place : Place) : String :=
  "/" ++ "/".intercalate place

/-- What stands at a place on the disk, if it is a file or a directory. -/
def readEntry? (place : Place) : IO (Option Entry) := do
  let spot : IO.FS.DirEntry := ⟨diskPath place, ""⟩
  try
    match (← spot.root.symlinkMetadata).type with
    | .dir => return some .directory
    | .file => return some (.file (← IO.FS.readBinFile (diskPath place)))
    | _ => return none
  catch _ => return none

/-- Adds what stands at a place and below it. -/
partial def readBelow (t : FileTree) (place : Place) : IO FileTree := do
  match ← readEntry? place with
  | none => return t
  | some (.file content) => return t.put place (.file content)
  | some .directory =>
      let spot : IO.FS.DirEntry := ⟨diskPath place, ""⟩
      let mut t := if place.isEmpty then t else t.put place .directory
      for entry in ← spot.root.readDir do
        t ← readBelow t (place ++ [entry.fileName])
      return t

/-- Adds the directories that lead to a place, as far as they are there. -/
def readAbove (t : FileTree) (place : Place) : IO FileTree := do
  let mut t := t
  for count in List.range place.length do
    let above := place.take count
    if !above.isEmpty then
      match ← readEntry? above with
      | some .directory => t := t.put above .directory
      | _ => pure ()
  return t

/-- Adds what stands at a path from the root and below it. -/
def readAt (t : FileTree) (p : Path) : IO FileTree := do
  readBelow (← readAbove t p.parts) p.parts

/-- The directories of the spaces that a workspace declares. -/
def spaceDirectories (here workspace : Path) (t : FileTree) : List Path :=
  match loadSpaces here workspace ⟨t, []⟩ with
  | (.ok c, _) =>
      c.spaces.flatMap fun s =>
        match c.layout s with
        | .ok l => [l.templates, l.output]
        | .error _ => []
  | (.error _, _) => []

/-- The files that an invocation may use. -/
def readFiles (here : Path) (i : CommandLine.Invocation) : IO FileTree := do
  let workspace := Path.ofString i.workspace
  let root := Path.absolute here workspace
  let mut t ← readAt FileTree.empty root
  for p in spaceDirectories here workspace t do
    if !Path.isUnder root p then t ← readAt t p
  match i.logFile with
  | some p => readAt t (Path.absolute here p)
  | none => return t

/-! ## Writing files -/

/-- Whether two entries are of one kind. -/
def sameKind : Option Entry → Option Entry → Bool
  | some .directory, some .directory => true
  | some (.file _), some (.file _) => true
  | _, _ => false

/-- Whether an entry is a file with some content. -/
def hasContent (content : ByteArray) : Option Entry → Bool
  | some (.file other) => other.data == content.data
  | _ => false

/-- Removes from the disk what is gone from a tree, deepest first. -/
def removeGone (before after : FileTree) : IO Unit := do
  let gone := before.entries.filter fun (place, entry) =>
    !sameKind (some entry) (after.entry? place)
  for (place, entry) in gone.mergeSort fun a b => b.1.length ≤ a.1.length do
    match entry with
    | .file _ => IO.FS.removeFile (diskPath place)
    | .directory => IO.FS.removeDir (diskPath place)

/-- Writes to the disk what is new or changed in a tree, outermost first. -/
def writeNew (before after : FileTree) : IO Unit := do
  for (place, entry) in after.entries.mergeSort fun a b => a.1.length ≤ b.1.length do
    match entry, before.entry? place with
    | .directory, some .directory => pure ()
    | .directory, _ => IO.FS.createDir (diskPath place)
    | .file content, old =>
        if !hasContent content old then IO.FS.writeBinFile (diskPath place) content

/-! ## Running -/

/-- The time as log files give it. -/
def currentTime : IO String := do
  return (← Std.Time.DateTime.now).format "uuuu-MM-dd HH:mm:ss,SSS"

/-- Runs the program with the words of a command line; gives its code. -/
def run (words : List String) : IO UInt32 := do
  let here := Path.ofString (← IO.FS.realPath ".").toString
  let before ←
    match CommandLine.Invocation.ofWords words with
    | .ok i => readFiles here i
    | .error _ => pure FileTree.empty
  let (outcome, after) := CommandLine.runProgram here (← currentTime) words before
  removeGone before after
  writeNew before after
  match outcome with
  | .ok e =>
      IO.print e.output
      IO.eprint e.errorOutput
      return e.code.toUInt32
  | .error failure =>
      IO.eprintln failure.message
      return 1

end Folio.Program

/-- The program. -/
def main (words : List String) : IO UInt32 :=
  Folio.Program.run words
