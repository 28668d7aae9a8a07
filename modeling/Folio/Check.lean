import Folio.Source.Relationship
import Folio.Scan

/-!
# Checking templates without rendering them

`checkFile` lists the references and relationships of a template that lead
nowhere, by line; `definitionsIn` lists the macros and blocks of every template.
-/

namespace Folio

open Text Source

/-- A reference or relationship that leads nowhere. -/
structure Diagnostic where
  path : Path
  line : Nat
  kind : String
  target : List Char
  deriving Repr, DecidableEq

/-- A diagnostic as one line, its path given from a directory if it lies there. -/
def Diagnostic.format (d : Diagnostic) (root : Path) : String :=
  let shown := (d.path.relativeTo? root).getD d.path
  s!"{shown}:{d.line}: cannot resolve {d.kind} target: " ++ String.ofList d.target

/-- The files below a directory that have one of some endings, in any case,
ordered by the text of the path from there. -/
def filesWithSuffix (t : FileTree) (directory : Path) (suffixes : List String) : List Path :=
  let named := (t.filesBelow directory).filter fun names =>
    suffixes.any fun suffix => hasSuffix suffix (names.getLast?.getD "").toList
  let keyed := named.map fun names => ("/".intercalate names, names)
  (keyed.mergeSort fun a b => decide (a.1 ≤ b.1)).map fun (_, names) =>
    ⟨directory.anchor, directory.parts ++ names⟩

/-- `filesWithSuffix`, none if there is no such directory. -/
def filesIn (t : FileTree) (directory : Path) (suffixes : List String) :
    Except Cause (List Path) := do
  if ← (t.isDirectory directory).mapError Cause.file then
    return filesWithSuffix t directory suffixes
  else return []

/-- The templates and pages of a space, root by root. -/
def templatesOf (t : FileTree) (l : Layout) : Except Cause (List Path) := do
  return (← l.searchRoots.mapM fun root => filesIn t root pageSuffixes).flatten

/-- The text of a template; one that cannot be read is reported and skipped. -/
def readTemplate (p : Path) : Action (Option (List Char)) := do
  match (← Action.files).readText p with
  | .ok text => return some text
  | .error cause =>
      if cause.isReadFault then
        Action.warn "diagnostics" s!"Cannot read {p}: {cause}"
        return none
      else throw (.raised cause)

/-- The references of a template that lead nowhere. -/
def brokenReferences (t : FileTree) (l : Layout) (p : Path) (text : List Char) :
    Except Cause (List Diagnostic) := do
  let found ← (references text).mapM fun ref => do
    match ← resolveReference t l p ref.target with
    | some _ => return []
    | none => return [⟨p, ref.line, ref.kind.keyword, ref.target⟩]
  return found.flatten

/-- The relationships of a page that lead nowhere. -/
def brokenRelationships (t : FileTree) (l : Layout) (p : Path) (text : List Char) :
    Except Cause (List Diagnostic) := do
  let found ← (relationshipRefs text).mapM fun ref => do
    match ← resolveRelationship t l p ref.target with
    | some _ => return []
    | none => return [⟨p, ref.line, "relationship " ++ String.ofList ref.key, ref.target⟩]
  return found.flatten

/-- What leads nowhere in a template, by line; only pages have relationships. -/
def checkFile (l : Layout) (p : Path) : Action (List Diagnostic) := do
  match ← readTemplate p with
  | none => return []
  | some text =>
      let t ← Action.files
      let refs ← Action.orRaise (brokenReferences t l p text)
      let rels ←
        if l.kindOf p = some .page then Action.orRaise (brokenRelationships t l p text)
        else pure []
      return (refs ++ rels).mergeSort fun a b => a.line ≤ b.line

/-- What leads nowhere in the templates of a space. -/
def checkSpace (l : Layout) : Action (List Diagnostic) := do
  let paths ← Action.orRaise (templatesOf (← Action.files) l)
  return (← paths.mapM (checkFile l)).flatten

/-- The macros and blocks of each template of a space that has any. -/
def definitionsIn (l : Layout) : Action (List (Path × List Definition)) := do
  let paths ← Action.orRaise (templatesOf (← Action.files) l)
  let found ← paths.mapM fun p => do
    match ← readTemplate p with
    | none => return (p, [])
    | some text => return (p, definitions text)
  return found.filter fun (_, defs) => !defs.isEmpty

end Folio
