import Folio.Resolve

/-!
# Metadata of a page

What a page says about itself beside its content: its relationships to other
pages, resolved to their keys in the manifest, and the data of its frontmatter.
-/

namespace Folio

open Text Source

/-- The keys of the pages that targets lead to.  A target that leads nowhere is
reported; one that leads to something other than a page is dropped. -/
def resolveTargets (l : Layout) (page : Path) : List (List Char) → Action (List String)
  | [] => return []
  | target :: rest => do
      match ← Action.orRaise (resolveRelationship (← Action.files) l page target) with
      | none =>
          Action.warn "metadata"
            (s!"Relationship target not resolved for {page}: " ++ String.ofList target)
          resolveTargets l page rest
      | some found => do
          let key := if l.kindOf found = some .page then l.pageKey? found else none
          return key.toList ++ (← resolveTargets l page rest)

/-- The relationships of a page as keys of the manifest. -/
def pageRelationships (l : Layout) (page : Path) (text : List Char) :
    Action (Relationships String) := do
  let targets ← Action.orRaise ((merged text).mapError fun e => .unknownRelation e.key)
  let keysOf := fun (r : Relation) => do
    return distinct (← resolveTargets l page (targets.get r))
  return ⟨← keysOf .next, ← keysOf .prev, ← keysOf .parent, ← keysOf .children,
    ← keysOf .related⟩

/-- The data of a text's frontmatter; `source` names the text in reports.  A
block that is no mapping, or no data at all, is reported and ignored. -/
def frontmatterData (text : List Char) (source : String) :
    Action (List (Data.Value × Data.Value)) := do
  match frontmatter text with
  | none => return []
  | some block =>
      match Data.Yaml.load block with
      | .ok (.map items) => return items
      | .ok .null => return []
      | .ok _ =>
          Action.warn "metadata" s!"Ignoring frontmatter in {source}: expected a mapping"
          return []
      | .error .malformed =>
          Action.warn "metadata"
            s!"Ignoring malformed frontmatter in {source}: {Cause.yaml .malformed}"
          return []
      | .error fault => throw (.raised (.yaml fault))

end Folio
