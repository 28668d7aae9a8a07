import Folio.Path

/-!
# File trees

The files that a build reads and writes, as a value.  `entry?` is the one view of
a tree: what stands at a place, a place being the names from the root down.
Paths are followed name by name, so that a name below a file, a missing
directory and a name that is too long fail differently.
-/

namespace Folio

/-- A place in a tree: the names from the root down. -/
abbrev Place := List String

/-- What can stand at a place. -/
inductive Entry
  | directory
  | file (content : ByteArray)

/-- Why an operation on files fails. -/
inductive FileFault
  | missing
  | notDirectory
  | isDirectory
  | alreadyExists
  | nameTooLong
  | sameFile
  | nullCharacter
  deriving Repr, DecidableEq

/-- Files and directories by place.  The root is always a directory. -/
structure FileTree where
  entries : List (Place × Entry)

namespace FileTree

/-- The tree without files. -/
def empty : FileTree :=
  ⟨[]⟩

/-- What stands at a place. -/
def entry? (t : FileTree) (place : Place) : Option Entry :=
  if place = [] then some .directory else t.entries.lookup place

/-- The tree with an entry at a place, in place of what stood there. -/
def put (t : FileTree) (place : Place) (entry : Entry) : FileTree :=
  ⟨(t.entries.filter fun e => e.1 ≠ place) ++ [(place, entry)]⟩

/-- The tree without a place and everything below it. -/
def prune (t : FileTree) (place : Place) : FileTree :=
  ⟨t.entries.filter fun e => !place.isPrefixOf e.1⟩

/-- The entries below a place, by the names that lead to them from there. -/
def below (t : FileTree) (place : Place) : List (List String × Entry) :=
  t.entries.filterMap fun (spot, entry) =>
    if place.isPrefixOf spot && spot ≠ place then some (spot.drop place.length, entry) else none

/-! ## Following paths -/

/-- The most bytes that a name may have. -/
def maxNameBytes : Nat := 255

/-- The most bytes that a path may have, with the byte that ends it. -/
def maxPathBytes : Nat := 4096

/-- Follows names from a place.  All but the last must lead to directories. -/
def walk (t : FileTree) : Place → List String → Except FileFault Place
  | place, [] => .ok place
  | place, name :: rest =>
      match t.entry? place with
      | none => .error .missing
      | some (.file _) => .error .notDirectory
      | some .directory =>
          if name = ".." then t.walk place.dropLast rest
          else if maxNameBytes < name.utf8ByteSize then .error .nameTooLong
          else t.walk (place ++ [name]) rest

/-- The place that a path leads to; there may be nothing there. -/
def locate (t : FileTree) (p : Path) : Except FileFault Place :=
  if !p.parts.all Path.isUsable then .error .nullCharacter
  else if maxPathBytes ≤ p.toString.utf8ByteSize then .error .nameTooLong
  else t.walk [] p.parts

/-- What stands at the end of a path. -/
def stat (t : FileTree) (p : Path) : Except FileFault Entry := do
  match t.entry? (← t.locate p) with
  | some entry => return entry
  | none => throw .missing

/-- What stands at the end of a path, if anything does.  Only a name that is too
long makes this fail. -/
def probe (t : FileTree) (p : Path) : Except FileFault (Option Entry) :=
  match t.stat p with
  | .ok entry => .ok (some entry)
  | .error .nameTooLong => .error .nameTooLong
  | .error _ => .ok none

/-- Whether a path leads to a file. -/
def isFile (t : FileTree) (p : Path) : Except FileFault Bool :=
  (t.probe p).map fun
    | some (.file _) => true
    | _ => false

/-- Whether a path leads to a directory. -/
def isDirectory (t : FileTree) (p : Path) : Except FileFault Bool :=
  (t.probe p).map fun
    | some .directory => true
    | _ => false

/-- Whether a path leads anywhere. -/
def pathExists (t : FileTree) (p : Path) : Except FileFault Bool :=
  (t.probe p).map (·.isSome)

/-- Whether a path leads to a file, a path that cannot be followed leading to none. -/
def hasFile (t : FileTree) (p : Path) : Bool :=
  match t.stat p with
  | .ok (.file _) => true
  | _ => false

/-! ## Reading and writing -/

/-- The bytes of a file. -/
def read (t : FileTree) (p : Path) : Except FileFault ByteArray := do
  match ← t.stat p with
  | .file content => return content
  | .directory => throw .isDirectory

/-- Writes a file into an existing directory, over a file that stands there. -/
def write (t : FileTree) (p : Path) (content : ByteArray) : Except FileFault FileTree := do
  let place ← t.locate p
  match t.entry? place with
  | some .directory => throw .isDirectory
  | _ => return t.put place (.file content)

/-- Makes a directory in an existing one. -/
def makeDirectory (t : FileTree) (p : Path) : Except FileFault FileTree := do
  let place ← t.locate p
  match t.entry? place with
  | some _ => throw .alreadyExists
  | none => return t.put place .directory

/-- `makeDirectory`, content with a directory that is there already. -/
def ensureDirectory (t : FileTree) (p : Path) : Except FileFault FileTree :=
  match t.makeDirectory p with
  | .ok t' => .ok t'
  | .error fault =>
      match t.isDirectory p with
      | .ok true => .ok t
      | _ => .error fault

/-- Makes a directory and those above it that are missing; `count` bounds how
many levels are tried.  Directories made before a failure stay. -/
def makeLevels (t : FileTree) : Nat → Path → FileTree × Option FileFault
  | 0, p =>
      match t.ensureDirectory p with
      | .ok t' => (t', none)
      | .error fault => (t, some fault)
  | count + 1, p =>
      match t.ensureDirectory p with
      | .ok t' => (t', none)
      | .error .missing =>
          match t.makeLevels count p.parent with
          | (t', none) =>
              match t'.ensureDirectory p with
              | .ok t'' => (t'', none)
              | .error fault => (t', some fault)
          | failed => failed
      | .error fault => (t, some fault)

/-- Makes a directory with all that are missing above it. -/
def makeDirectories (t : FileTree) (p : Path) : FileTree × Option FileFault :=
  t.makeLevels p.parts.length p

/-- Copies the bytes of one file to another. -/
def copyFile (t : FileTree) (source target : Path) : Except FileFault FileTree := do
  let content ← t.read source
  let place ← t.locate target
  if (t.locate source).toOption = some place then throw .sameFile
  t.write target content

/-- Removes a directory with all that is in it. -/
def removeDirectory (t : FileTree) (p : Path) : Except FileFault FileTree := do
  match ← t.stat p with
  | .directory => return t.prune (← t.locate p)
  | .file _ => throw .notDirectory

/-- Removes a file, or a directory with all that is in it. -/
def remove (t : FileTree) (p : Path) : Except FileFault FileTree := do
  let _ ← t.stat p
  return t.prune (← t.locate p)

/-- Whether a path goes on with some names and is still one that a file can have. -/
def reaches (p : Path) (names : List String) : Bool :=
  (⟨p.anchor, p.parts ++ names⟩ : Path).toString.utf8ByteSize < maxPathBytes

/-- Copies a directory with all that is in it to a place where nothing is.  What has a
path that is too long, here or there, is left out, and copying fails in the end. -/
def copyDirectory (t : FileTree) (source target : Path) : FileTree × Option FileFault :=
  match t.stat source with
  | .error fault => (t, some fault)
  | .ok (.file _) => (t, some .notDirectory)
  | .ok .directory =>
      match t.makeDirectories target.parent with
      | (t', some fault) => (t', some fault)
      | (t', none) =>
          match t'.makeDirectory target, t.locate source, t'.locate target with
          | .error fault, _, _ => (t', some fault)
          | .ok t'', .ok origin, .ok goal =>
              let (near, far) := (t.below origin).partition fun (names, _) =>
                reaches source names && reaches target names
              (near.foldl (fun acc (names, entry) => acc.put (goal ++ names) entry) t'',
                if far.isEmpty then none else some .nameTooLong)
          | .ok _, .error fault, _ => (t', some fault)
          | .ok _, _, .error fault => (t', some fault)

/-- The files below a directory, by the names that lead to them; none if there is
no such directory. -/
def filesBelow (t : FileTree) (p : Path) : List (List String) :=
  match t.stat p, t.locate p with
  | .ok .directory, .ok place =>
      (t.below place).filterMap fun (names, entry) =>
        match entry with
        | .file _ => some names
        | .directory => none
  | _, _ => []

end FileTree

end Folio
