import Folio.Template.Names

/-!
# Bindings of a part of a template

Every part of a template that has names of its own — the template, a block, a
macro, the body of a loop — starts with a value for each of them.  `Bindings` says
where these values come from; it is found by going through the part once, in
order, without entering parts with names of their own.

A name that is read and not known outside is looked up in the context when the
part starts.  A name that is assigned first starts undefined, or with the value
that it has outside.  A name assigned in a branch only may still be read as the
outer one.
-/

namespace Folio.Template

/-- Where the first value of a name comes from. -/
inductive Origin
  | parameter
  | context
  | outer
  | undefined
  deriving Repr, DecidableEq

/-- The names of a part of a template with their origins, and those among them
that it assigns. -/
structure Bindings where
  origins : List (String × Origin)
  assigned : List String
  deriving Repr

namespace Bindings

/-- No names. -/
def empty : Bindings :=
  ⟨[], []⟩

/-- Whether a name is one of the part. -/
def has (b : Bindings) (name : String) : Bool :=
  b.origins.any fun o => o.1 = name

/-- Gives a name an origin. -/
def put (b : Bindings) (name : String) (origin : Origin) : Bindings :=
  if b.has name then
    { b with origins := b.origins.map fun o => if o.1 = name then (name, origin) else o }
  else { b with origins := b.origins ++ [(name, origin)] }

/-- Marks a name as assigned. -/
def mark (b : Bindings) (name : String) : Bindings :=
  if b.assigned.contains name then b else { b with assigned := b.assigned ++ [name] }

/-- Records that a name is given by whoever starts the part. -/
def parameter (b : Bindings) (name : String) : Bindings :=
  (b.mark name).put name .parameter

/-- Records that a name is assigned. -/
def assign (outer : String → Bool) (b : Bindings) (name : String) : Bindings :=
  let marked := b.mark name
  if b.has name then marked
  else marked.put name (if outer name then .outer else .undefined)

/-- Records that a name is read. -/
def read (outer : String → Bool) (b : Bindings) (name : String) : Bindings :=
  if b.has name || outer name then b else b.put name .context

/-- Records that names are given. -/
def parameters (b : Bindings) (names : List String) : Bindings :=
  names.foldl parameter b

/-- Records that names are read. -/
def readAll (outer : String → Bool) (b : Bindings) (names : List String) : Bindings :=
  names.foldl (read outer) b

/-- Records what a target assigns. -/
def assignTarget (outer : String → Bool) (b : Bindings) (t : Target) : Bindings :=
  t.names.foldl (assign outer) (readAll outer b t.records)

/-- Records what the branches of a choice do, each starting from `b`.  A name that
only branches assign keeps its outer value where they do not. -/
def merge (outer : String → Bool) (b : Bindings) (branches : List Bindings) : Bindings :=
  let fresh := (branches.flatMap (·.assigned)).eraseDups.filter fun n => !b.assigned.contains n
  let all := branches.foldl (fun (acc : Bindings) (branch : Bindings) =>
    branch.assigned.foldl mark
      (branch.origins.foldl (fun (a : Bindings) (o : String × Origin) => a.put o.1 o.2) acc)) b
  fresh.foldl (fun acc n => acc.put n (if outer n then .outer else .context)) all

mutual

/-- Records what a statement does to the names of the part it stands in. -/
def after (outer : String → Bool) (b : Bindings) : Statement → Bindings
  | .text _ => b
  | .print value => b.readAll outer value.names
  | .branch test body others otherwise =>
      let start := b.readAll outer test.names
      start.merge outer [start.afterAll outer body, start.afterOthers outer others,
        start.afterAll outer otherwise]
  | .loop _ items _ _ _ _ => b.readAll outer items.names
  | .assign target value => (b.readAll outer value.names).assignTarget outer target
  | .capture target _ _ => b.assignTarget outer target
  | .bind bindings _ => b.readAll outer (bindings.flatMap fun (_, e) => e.names)
  | .define name _ _ => b.assign outer name
  | .callWith _ call _ => b.readAll outer call.names
  | .filtered filter _ => b.readAll outer filter.names
  | .block _ _ _ _ => b
  | .extension template => b.readAll outer template.names
  | .inclusion template _ _ => b.readAll outer template.names
  | .library template target _ => (b.readAll outer template.names).assign outer target
  | .libraryNames template names _ =>
      (names.map (·.2)).foldl (assign outer) (b.readAll outer template.names)
  | .escaping _ _ => b

/-- Records what statements do. -/
def afterAll (outer : String → Bool) (b : Bindings) : List Statement → Bindings
  | [] => b
  | s :: rest => (b.after outer s).afterAll outer rest

/-- Records what the later branches of a choice do. -/
def afterOthers (outer : String → Bool) (b : Bindings) :
    List (Expr × List Statement) → Bindings
  | [] => b
  | (test, body) :: rest =>
      let start := b.readAll outer test.names
      (start.merge outer [start.afterAll outer body]).afterOthers outer rest

end

/-! ## Parts of a template -/

/-- The names of a template or block. -/
def ofBody (outer : String → Bool) (given : List String) (body : List Statement) : Bindings :=
  (empty.parameters given).afterAll outer body

/-- The names of a macro or of a part that a call is given.  `extra` are given
beside the parameters. -/
def ofRoutine (outer : String → Bool) (signature : Signature) (extra : List String)
    (body : List Statement) : Bindings :=
  let start := (empty.parameters signature.parameters).readAll outer
    (Expr.namesIn signature.defaults)
  (start.afterAll outer body).parameters extra

/-- The names of a filtered part. -/
def ofFiltered (outer : String → Bool) (filter : Expr) (body : List Statement) : Bindings :=
  (empty.afterAll outer body).readAll outer filter.names

/-- The names of a part with its own rule of escaping. -/
def ofEscaping (outer : String → Bool) (value : Expr) (body : List Statement) : Bindings :=
  (empty.readAll outer value.names).afterAll outer body

end Bindings

end Folio.Template
