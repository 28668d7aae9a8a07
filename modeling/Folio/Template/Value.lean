import Folio.Data.Value
import Folio.Template.Bindings
import Folio.Template.Fault

/-!
# Values of templates

A value is a scalar, a fixed sequence, or a reference to an object.  Objects are
what can change while a template runs, and they live in a *store*: lists,
mappings, records, loops in progress, macros.  The store also holds the names of
the parts that run, in *frames*, and the *contexts* in which templates look up
all other names.
-/

namespace Folio.Template

open Data (Date DateTime)

/-- The functions that every template knows. -/
inductive Builtin
  | range
  | mapping
  | loremIpsum
  | cycler
  | joiner
  | record
  deriving Repr, DecidableEq

/-- What is seen of a mapping without copying it. -/
inductive View
  | keys
  | values
  | items
  deriving Repr, DecidableEq

/-- A value.  A safe text needs no escaping. -/
inductive Value
  | undefined
  | null
  | bool (b : Bool)
  | int (n : Int)
  | float (x : Float)
  | text (s : List Char)
  | safe (s : List Char)
  | bytes (content : List UInt8)
  | date (d : Date)
  | dateTime (d : DateTime)
  | tuple (items : List Value)
  | set (items : List Value)
  | range (start stop step : Int)
  | object (id : Nat)
  | view (view : View) (id : Nat)
  | method (receiver : Value) (name : String)
  | builtin (function : Builtin)
  deriving Inhabited

/-- What something is called with. -/
structure Given where
  items : List Value
  named : List (String × Value)

namespace Given

/-- Nothing. -/
def none : Given :=
  ⟨[], []⟩

/-- Values without names. -/
def ofItems (items : List Value) : Given :=
  ⟨items, []⟩

/-- The value of a name. -/
def named? (g : Given) (name : String) : Option Value :=
  g.named.lookup name

/-- Everything but a name. -/
def without (g : Given) (name : String) : Given :=
  { g with named := g.named.filter fun n => n.1 ≠ name }

end Given

/-! ## Running parts -/

/-- Where a part of a template runs: the frames of its names, innermost first, and
its context.  `outermost` if no part around it has names of its own; `yields` is
the place that says whether its output gives way to that of an extended template. -/
structure Site where
  context : Nat
  frames : List Nat
  outermost : Bool
  yields : Option Nat

/-- The names of a running part, with their values where they have any, and those
among them that the part assigns. -/
structure Frame where
  values : List (String × Option Value)
  assigned : List String

/-- A block of a template, as one of several of its name: the template it comes
from tells it from the others. -/
structure BlockCode where
  owner : String
  block : Block

/-- Where names are looked up that no part has: what the template was given, and
what it sets itself.  The names that others may import are `exported`. -/
structure Context where
  given : List (String × Value)
  vars : List (String × Value)
  exported : List String
  blocks : List (String × List BlockCode)
  escapes : Bool

/-- A template that has been read. -/
structure ParsedTemplate where
  name : String
  body : List Statement

/-- A macro, or the part of a template that a call is given. -/
structure Routine where
  name : Option String
  signature : Signature
  body : List Statement
  bindings : Bindings
  usesCaller : Bool
  usesNamed : Bool
  usesMore : Bool
  site : Site

/-- The statement of a loop that can call itself, and where it runs. -/
structure Recursion where
  target : Target
  test : Option Expr
  body : List Statement
  otherwise : List Statement
  site : Site

/-- A loop in progress: its items, the number of the current one, and what it was
last asked to compare. -/
structure LoopState where
  items : List Value
  position : Nat
  depth : Nat
  compared : Option (List Value)
  recursion : Option Recursion

/-! ## Objects -/

/-- What a reference refers to. -/
inductive Object
  | list (items : List Value)
  | mapping (items : List (Value × Value))
  | stream (items : List Value)
  | record (fields : List (Value × Value))
  | group (key items : Value)
  | cycler (items : List Value) (position : Nat)
  | joiner (separator : Value) (used : Bool)
  | loop (state : LoopState)
  | routine (routine : Routine)
  | library (name : String) (members : List (String × Value)) (text : List Char)
  | blockCall (context : Nat) (stack : List BlockCode)
  | ownBlocks (context : Nat)

/-- Everything that changes while templates run.  `extended` tells for each
template that runs which template it extends, if it has said so; `libraries` are
the templates that were imported, by name and source. -/
structure Store where
  objects : Array Object
  frames : Array Frame
  contexts : Array Context
  extended : Array (Option ParsedTemplate)
  libraries : List ((String × List Char) × Nat)

namespace Store

/-- The store before anything runs. -/
def empty : Store :=
  ⟨#[], #[], #[], #[], []⟩

end Store

/-- Something that runs in a store and may fail. -/
abbrev Render (α : Type) := ExceptT Fault (StateM Store) α

namespace Render

/-- A value, or the fault that stands in its place. -/
def ofExcept {α : Type} (r : Except Fault α) : Render α :=
  ExceptT.mk (pure r)

/-! ## Objects in the store -/

/-- The object of a reference. -/
def object? (id : Nat) : Render (Option Object) :=
  return (← get).objects[id]?

/-- Adds an object; gives the reference to it. -/
def allocate (o : Object) : Render Value := do
  let s ← get
  set { s with objects := s.objects.push o }
  return .object s.objects.size

/-- Replaces the object of a reference. -/
def replace (id : Nat) (o : Object) : Render Unit :=
  modify fun s => { s with objects := s.objects.setIfInBounds id o }

/-- A new list. -/
def newList (items : List Value) : Render Value :=
  allocate (.list items)

/-- A new sequence that can be gone through once. -/
def newStream (items : List Value) : Render Value :=
  allocate (.stream items)

/-! ## Frames -/

/-- Adds a frame without names. -/
def newFrame (assigned : List String) : Render Nat := do
  let s ← get
  set { s with frames := s.frames.push ⟨[], assigned⟩ }
  return s.frames.size

/-- The frame of a number. -/
def frame (id : Nat) : Render Frame :=
  return ((← get).frames[id]?).getD ⟨[], []⟩

/-- Replaces the values of a frame. -/
def setValues (id : Nat) (values : List (String × Option Value)) : Render Unit :=
  modify fun s => { s with frames := s.frames.modify id fun f => { f with values := values } }

/-- Gives a name of a frame a value, or none. -/
def setName (id : Nat) (name : String) (value : Option Value) : Render Unit := do
  let values := (← frame id).values
  setValues id <|
    if values.any fun n => n.1 = name then
      values.map fun n => if n.1 = name then (name, value) else n
    else values ++ [(name, value)]

/-- Leaves the names of a frame without values. -/
def clear (id : Nat) : Render Unit := do
  setValues id ((← frame id).values.map fun (n, _) => (n, none))

/-- The value of a name in the first frame that has the name. -/
def findName (name : String) : List Nat → Render (Option (Option Value))
  | [] => return none
  | id :: rest => do
      match (← frame id).values.lookup name with
      | some value => return some value
      | none => findName name rest

/-- The names that parts assign, with their values, innermost first. -/
def assignedNames (frames : List Nat) : Render (List (String × Value)) := do
  let names ← frames.mapM fun id => do return (← frame id).assigned
  names.flatten.eraseDups.filterMapM fun n => do
    match ← findName n frames with
    | some (some v) => return some (n, v)
    | _ => return none

/-! ## Contexts -/

/-- Adds a context. -/
def newContext (c : Context) : Render Nat := do
  let s ← get
  set { s with contexts := s.contexts.push c }
  return s.contexts.size

/-- The context of a number. -/
def context (id : Nat) : Render Context :=
  return ((← get).contexts[id]?).getD ⟨[], [], [], [], false⟩

/-- Changes a context. -/
def changeContext (id : Nat) (change : Context → Context) : Render Unit := do
  let c ← context id
  modify fun s => { s with contexts := s.contexts.setIfInBounds id (change c) }

end Render

namespace Context

/-- The value of a name in a context. -/
def find? (c : Context) (name : String) : Option Value :=
  (c.vars.lookup name).or (c.given.lookup name)

/-- Puts a value under a name: in the place of the name, else at the end. -/
def putName (names : List (String × Value)) (name : String) (value : Value) :
    List (String × Value) :=
  if names.any fun n => n.1 = name then
    names.map fun n => if n.1 = name then (name, value) else n
  else names ++ [(name, value)]

/-- Puts several values under their names. -/
def putNames (names : List (String × Value)) (more : List (String × Value)) :
    List (String × Value) :=
  more.foldl (fun acc n => putName acc n.1 n.2) names

/-- All names of a context. -/
def all (c : Context) : List (String × Value) :=
  putNames c.given c.vars

/-- Sets a name of a context. -/
def setVar (name : String) (value : Value) (c : Context) : Context :=
  { c with vars := putName c.vars name value }

/-- Lets others import a name, unless it begins with an underscore. -/
def exporting (name : String) (c : Context) : Context :=
  if name.toList.head? = some '_' || c.exported.contains name then c
  else { c with exported := c.exported ++ [name] }

/-- Lets nobody import a name. -/
def withholding (name : String) (c : Context) : Context :=
  if name.toList.head? = some '_' then c
  else { c with exported := c.exported.filter (· ≠ name) }

end Context

end Folio.Template
