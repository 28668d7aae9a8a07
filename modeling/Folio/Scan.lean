import Folio.Resolve

/-!
# Dependencies of a template

`scan` follows references from one template to all that it needs, directly or
through others.  The last reference met is followed first; each file is read
once, so that templates which refer to each other end the search.
-/

namespace Folio

open Text Source

/-- What a template depends on: components, elements, and the files that were
read, in the order of reading. -/
structure Dependencies where
  components : List Path
  elements : List Path
  visited : List Path
  deriving Repr, DecidableEq

namespace Dependencies

/-- No dependencies. -/
def empty : Dependencies :=
  ⟨[], [], []⟩

/-- Adds a file under its kind, once. -/
def add (d : Dependencies) (kind : Option RootKind) (p : Path) : Dependencies :=
  match kind with
  | some .component =>
      if p ∈ d.components then d else { d with components := d.components ++ [p] }
  | some .element => if p ∈ d.elements then d else { d with elements := d.elements ++ [p] }
  | _ => d

end Dependencies

/-- A search in progress: paths to look at, the next one first, files looked at,
and what was found. -/
structure Search where
  pending : List Path
  seen : List Path
  found : Dependencies

/-- Follows the references of a file: each that leads somewhere is recorded and
put before those pending. -/
def followReferences (l : Layout) (current : Path) :
    List Reference → Search → Action Search
  | [], search => return search
  | ref :: rest, search => do
      match ← Action.orRaise (resolveReference (← Action.files) l current ref.target) with
      | none =>
          Action.debug "scanner"
            (s!"Unresolved {ref.kind.keyword} " ++ String.ofList (quote ref.target) ++
              s!" in {current}")
          followReferences l current rest search
      | some target =>
          followReferences l current rest
            { search with
              pending := target :: search.pending
              found := search.found.add (l.kindOf target) target }

/-- One step of a search: the next pending path is looked at. -/
def searchStep (l : Layout) (search : Search) (next : Path) (pending : List Path) :
    Action Search := do
  let search := { search with pending := pending }
  let current ← Action.orRaise (next.resolved.mapError Cause.ofUnusable)
  if current ∈ search.seen then return search
  let search := { search with seen := current :: search.seen }
  match (← Action.files).readText current with
  | .error cause =>
      if cause.isReadFault then
        Action.debug "scanner" s!"Skipping unreadable template {current}: {cause}"
        return search
      else throw (.raised cause)
  | .ok text =>
      followReferences l current (references text)
        { search with
          found := { search.found with visited := search.found.visited ++ [current] } }

/-- Runs a search until nothing is pending; `fuel` bounds the number of steps. -/
def runSearch (l : Layout) : Nat → Search → Action Search
  | 0, search => return search
  | fuel + 1, search =>
      match search.pending with
      | [] => return search
      | next :: pending => do runSearch l fuel (← searchStep l search next pending)

/-- A bound on the steps of any search in a tree: a file is read once, and every
step but the first comes from a reference in a file that was read. -/
def searchBound (t : FileTree) : Nat :=
  t.entries.foldl (fun n (_, entry) =>
    match entry with
    | .file content => n + content.size + 1
    | .directory => n) 2

/-- What the template at `entry` depends on. -/
def scan (l : Layout) (entry : Path) : Action Dependencies := do
  let bound := searchBound (← Action.files)
  return (← runSearch l bound ⟨[entry], [], Dependencies.empty⟩).found

end Folio
