import Folio.Source.Reference
import Folio.Layout
import Folio.Session

/-!
# Resolving references

A reference in a template leads to a file next to the template or, failing that,
in one of the search roots.  A target of a relationship is taken from the
workspace, from the templates or from the page itself, and may leave its ending
out.  Neither fails for a target that is not there; both fail for one that cannot
be a path.
-/

namespace Folio

open Text

/-- The first of a list of paths, resolved, that is a file. -/
def firstFile (t : FileTree) : List Path → Except Cause (Option Path)
  | [] => .ok none
  | p :: rest => do
      let resolved ← p.resolved.mapError Cause.ofUnusable
      if ← (t.isFile resolved).mapError Cause.file then return some resolved
      firstFile t rest

/-- The file that a reference in the template `current` leads to. -/
def resolveReference (t : FileTree) (l : Layout) (current : Path) (target : List Char) :
    Except Cause (Option Path) :=
  let target := Path.ofChars target
  firstFile t ((current.parent :: l.searchRoots).map (·.join target))

/-- A file, or the first of a path's completions by a known ending that is one. -/
def withKnownSuffix (t : FileTree) (base : Path) : Except Cause (Option Path) :=
  if base.suffix.isEmpty then
    if base.name.isEmpty then .error .namelessPath
    else firstFile t (pageSuffixes.filterMap fun suffix => base.withName? (base.name ++ suffix))
  else firstFile t [base]

/-- Where a target of a relationship is taken from; none if it cannot be one. -/
def relationshipBase (l : Layout) (current : Path) (target : List Char) : Option Path :=
  let path := Path.ofChars target
  if (sentinelName ++ "/").toList.isPrefixOf target then some (l.workspace.join path)
  else if RootKind.all.any fun kind => (kind.directory ++ "/").toList.isPrefixOf target then
    some (l.templates.join path)
  else if path.isAbsolute then none
  else some (current.parent.join path)

/-- The file that a target of a relationship on the page `current` leads to.  A
target with an asterisk leads nowhere. -/
def resolveRelationship (t : FileTree) (l : Layout) (current : Path) (target : List Char) :
    Except Cause (Option Path) :=
  let cleaned := unquote target
  if cleaned.isEmpty || cleaned.contains '*' then .ok none
  else
    match relationshipBase l current cleaned with
    | none => .ok none
    | some base => do
        withKnownSuffix t (← base.resolved.mapError Cause.ofUnusable)

end Folio
