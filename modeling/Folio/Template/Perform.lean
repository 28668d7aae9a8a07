import Folio.Template.Evaluate

/-!
# Running statements

What a statement prints and what it changes in the part where it stands, and what
calls of macros, blocks and loops do.
-/

namespace Folio.Template

open Render

/-! ## Texts that must be texts -/

/-- A value that is printed as it is: it must be a text. -/
def rawText (v : Value) : Render (List Char) :=
  needText v

/-! ## Macros -/

/-- A macro, or the part that a call is given, as it stands in a part. -/
def routineOf (site : Site) (name : Option String) (signature : Signature)
    (body : List Statement) : Render Value := do
  let takes := fun (n : String) => signature.parameters.contains n
  let usesCaller := undeclared "caller" body
  let usesNamed := undeclared "kwargs" body && !takes "kwargs"
  let usesMore := undeclared "varargs" body && !takes "varargs"
  let extra := (if usesCaller && !takes "caller" then ["caller"] else []) ++
    (if usesNamed then ["kwargs"] else []) ++ (if usesMore then ["varargs"] else [])
  let bindings := Bindings.ofRoutine (← knownNames site.frames) signature extra body
  allocate (.routine ⟨name, signature, body, bindings, usesCaller, usesNamed, usesMore, site⟩)

/-- The values of the parameters of a macro, where they are given, and what is left
of what is given. -/
def matchParameters (parameters : List String) (g : Given) :
    List (String × Option Value) × Given :=
  let count := parameters.length
  let byPosition := (parameters.zip g.items).map fun (n, v) => (n, some v)
  let others := parameters.drop g.items.length
  let byName := others.map fun n => (n, g.named? n)
  (byPosition ++ byName, ⟨g.items.drop count, g.named.filter fun n => !others.contains n.1⟩)

/-- Calls a macro. -/
def invoke (m : Machine) (context : Nat) (r : Routine) (g : Given) : Render Value := do
  let (values, left) := matchParameters r.signature.parameters g
  let takesCaller := r.signature.parameters.contains "caller"
  let (values, left) :=
    if r.usesCaller && !takesCaller then
      (values ++ [("caller", some ((left.named? "caller").getD .undefined))], left.without "caller")
    else (values, left)
  if !r.usesNamed && !left.named.isEmpty then throw .wrongType
  if !r.usesMore && !left.items.isEmpty then throw .wrongType
  let kwargs ← newMapping (left.named.map fun (n, v) => (.text n.toList, v))
  let site ← startPart r.site r.bindings
  let site := { site with yields := none }
  if r.usesNamed then setHere site "kwargs" kwargs
  if r.usesMore then setHere site "varargs" (.tuple left.items)
  for (n, v) in values do
    match v with
    | some v => setHere site n v
    | none => pure ()
  for (n, default) in r.signature.withDefaults do
    if ((values.lookup n).join).isNone then
      match default with
      | some e => setHere site n (← m.evaluate site e)
      | none => setHere site n .undefined
  outputText context (← m.run site r.body)

/-! ## Blocks -/

/-- Runs the first of several blocks of one name. -/
def runBlock (m : Machine) (context : Nat) (stack : List BlockCode) : Render (List Char) := do
  match stack with
  | [] => return []
  | code :: _ =>
      let body := code.block.body
      let own ←
        if undeclared "self" body then pure [("self", ← allocate (.ownBlocks context))] else pure []
      let parent ←
        if undeclared "super" body then pure [("super", ← parentBlock context stack)] else pure []
      let frames ← startAlone context (own ++ parent) body
      m.run ⟨context, frames, false, none⟩ body

/-- A context that has the names of the parts around as well. -/
def derivedContext (site : Site) : Render Nat := do
  let c ← Render.context site.context
  let names ← assignedNames site.frames
  newContext { c with given := Context.putNames c.all names, vars := [], exported := [] }

/-! ## Loops -/

/-- The items of a loop for which its test holds. -/
def testedItems (m : Machine) (site : Site) (target : Target) (condition : Option Expr)
    (items : List Value) : Render (List Value) := do
  match condition with
  | none => return items
  | some e =>
      let known ← knownNames site.frames
      let b := (Bindings.empty.parameters target.names).readAll known e.names
      let inner ← startPart site b
      let found ← items.filterM fun v => do
        assign inner target v
        isTrue (← m.evaluate inner e)
      endPart inner
      return found

/-- Runs the body of a loop for each of its items; `state` is that of the loop if
the body can see it. -/
def runItems (m : Machine) (outer inner : Site) (b : Bindings) (target : Target)
    (body : List Statement) (loop : Option (Nat × LoopState)) :
    List Value → Nat → Render (List (List Char))
  | [], _ => return []
  | v :: rest, position => do
      match loop, inner.frames with
      | some (id, state), frame :: _ =>
          let compared ←
            match ← object? id with
            | some (.loop now) => pure now.compared
            | _ => pure none
          replace id (.loop { state with position := position, compared := compared })
          setName frame "loop" (some (.object id))
      | _, _ => pure ()
      assign inner target v
      match inner.frames with
      | frame :: _ => enter frame outer.context outer.frames b
      | [] => pure ()
      let text ← m.run inner body
      return text :: (← runItems m outer inner b target body loop rest (position + 1))

/-- Runs a loop over the items of a value. -/
def runLoop (m : Machine) (r : Recursion) (recursive : Bool) (depth : Nat) (v : Value) :
    Render (List Char) := do
  let site := r.site
  let items ← testedItems m site r.target r.test (← Render.items v)
  if items.isEmpty then
    if r.otherwise.isEmpty then return []
    let known ← knownNames site.frames
    let inner ← startPart site (Bindings.ofBody known [] r.otherwise)
    let text ← m.run inner r.otherwise
    endPart inner
    return text
  else
    let isSeen := recursive || undeclared "loop" r.body ||
      (Statement.blocksIn r.body ++ Statement.blocksIn r.otherwise).any (·.sharesNames)
    let known ← knownNames site.frames
    let given := (if isSeen then ["loop"] else []) ++ r.target.names
    let b := Bindings.ofBody known given r.body
    let state : LoopState := ⟨items, 0, depth, none, if recursive then some r else none⟩
    let loop ←
      if isSeen then
        match ← allocate (.loop state) with
        | .object id => pure (some (id, state))
        | _ => pure none
      else pure none
    let inner ← startPart site b
    let texts ← runItems m site inner b r.target r.body loop items 0
    endPart inner
    return texts.flatten

/-! ## Calls -/

/-- Calls a value. -/
def callValue (m : Machine) (context : Nat) (f : Value) (g : Given) : Render Value := do
  match f with
  | .undefined => throw .undefined
  | .method receiver name => callMethod receiver name g
  | .builtin function => callBuiltin function g
  | .object id =>
      match ← object? id with
      | some (.routine r) => invoke m context r g
      | some (.blockCall c stack) =>
          nothing g
          outputText c (← runBlock m c stack)
      | some (.joiner separator used) =>
          nothing g
          if used then return separator
          replace id (.joiner separator true)
          return .text []
      | some (.loop state) =>
          match state.recursion, g.items with
          | some r, [v] =>
              outputText context (← runLoop m r true (state.depth + 1) v)
          | _, _ => throw .wrongType
      | _ => throw .wrongType
  | _ => throw .wrongType

/-! ## Other templates -/

/-- The context of a template that is run for itself, with the names that it is
given. -/
def contextFor (t : ParsedTemplate) (given : List (String × Value)) : Context :=
  let blocks := (Statement.blocksIn t.body).map fun b => (b.name, [BlockCode.mk t.name b])
  ⟨given, [], [], blocks, false⟩

/-- Opens the template that a value names. -/
def openNamed (m : Machine) (v : Value) : Render (List Char × ParsedTemplate) := do
  match v with
  | .undefined => throw .undefined
  | _ =>
      match v.chars? with
      | some name => Render.ofExcept (m.openTemplate (String.ofList name))
      | none => if ← isHashable v then throw .noAttribute else throw .wrongType

/-- Opens the first of several templates that there is. -/
def openFirst (m : Machine) : List Value → Render (List Char × ParsedTemplate)
  | [] => throw .noneFound
  | v :: rest =>
      tryCatch (openNamed m v) fun fault =>
        if fault = .notFound || fault = .noneFound || fault = .undefined then openFirst m rest
        else throw fault

/-- Opens the template that a value names, or the first of several. -/
def openOneOf (m : Machine) (v : Value) : Render (List Char × ParsedTemplate) := do
  match v with
  | .undefined => openNamed m v
  | .text _ => openNamed m v
  | .safe _ => openNamed m v
  | _ => if ← isTrue v then openFirst m (← Render.items v) else throw .noneFound

/-- Runs a template for what others can import from it. -/
def libraryOf (m : Machine) (t : ParsedTemplate) (given : List (String × Value)) :
    Render Value := do
  let context ← newContext (contextFor t given)
  let text ← m.render t context
  let c ← Render.context context
  let members := c.exported.filterMap fun n => (c.vars.lookup n).map fun v => (n, v)
  allocate (.library t.name members text)

/-- What others can import from a template that sees no names but its own; it is
run once. -/
def sharedLibrary (m : Machine) (source : List Char) (t : ParsedTemplate) : Render Value := do
  match (← get).libraries.lookup (t.name, source) with
  | some id => return .object id
  | none =>
      match ← libraryOf m t builtins with
      | .object id =>
          modify fun s => { s with libraries := s.libraries ++ [((t.name, source), id)] }
          return .object id
      | v => return v

/-- The names that a template sees which is run from a part. -/
def visibleNames (site : Site) : Render (List (String × Value)) := do
  return Context.putNames (← Render.context site.context).all (← assignedNames site.frames)

/-- What a part imports from a template. -/
def importedLibrary (m : Machine) (site : Site) (template : Expr) (withContext : Bool) :
    Render Value := do
  let (source, t) ← openNamed m (← m.evaluate site template)
  if withContext then libraryOf m t (← visibleNames site) else sharedLibrary m source t

/-- Opens a template that may be missing. -/
def openIncluded (m : Machine) (site : Site) (template : Expr) (mayMiss : Bool) :
    Render (Option (List Char × ParsedTemplate)) := do
  let v ← m.evaluate site template
  tryCatch (some <$> openOneOf m v) fun fault =>
    if mayMiss && (fault = .notFound || fault = .noneFound) then return none else throw fault

/-! ## Statements -/

/-- Runs the first branch whose condition holds. -/
def runBranches (m : Machine) (site : Site) (otherwise : List Statement) :
    List (Expr × List Statement) → Render (List Char)
  | [] => m.run site otherwise
  | (condition, body) :: rest => do
      if ← isTrue (← m.evaluate site condition) then m.run site body
      else runBranches m site otherwise rest

/-- Runs a statement of a part that assigns a text that is captured. -/
def runCapture (m : Machine) (site : Site) (target : Target) (filter : Option Expr)
    (body : List Statement) : Render Unit := do
  let inner ← startPart site (Bindings.ofBody (← knownNames site.frames) [] body)
  let inner := { inner with yields := none }
  let text ← m.run inner body
  let v ←
    match filter with
    | some e => filterText m inner (← outputText site.context text) e
    | none => outputText site.context text
  let v ← if (← Render.context site.context).escapes then pure (.safe (← escaped v)) else pure v
  assign site target v
  share site target.names true
  endPart inner

/-- Runs the block of a template, or of one that extends it. -/
def runOwnBlock (m : Machine) (site : Site) (name : String) (sharesNames required : Bool) :
    Render (List Char) := do
  if site.outermost && (← givesWay site) then return []
  let context ← if sharesNames then derivedContext site else pure site.context
  let stack := ((← Render.context context).blocks.lookup name).getD []
  if required && stack.length ≤ 1 then throw .badState
  runBlock m context stack

/-- Adds the blocks of a template behind those of the ones that extend it. -/
def addBlocks (t : ParsedTemplate) (c : Context) : Context :=
  (Statement.blocksIn t.body).foldl (fun c b =>
    let code := BlockCode.mk t.name b
    if (c.blocks.lookup b.name).isSome then
      { c with blocks := c.blocks.map fun (n, stack) =>
          if n = b.name then (n, stack ++ [code]) else (n, stack) }
    else { c with blocks := c.blocks ++ [(b.name, [code])] }) c

/-- Extends a template. -/
def runExtension (m : Machine) (site : Site) (template : Expr) : Render Unit := do
  if ← givesWay site then throw .badState
  let (_, t) ← openNamed m (← m.evaluate site template)
  changeContext site.context (addBlocks t)
  match site.yields with
  | some k => modify fun s => { s with extended := s.extended.setIfInBounds k (some t) }
  | none => return ()

/-- Includes a template. -/
def runInclusion (m : Machine) (site : Site) (template : Expr) (mayMiss withContext : Bool) :
    Render (List Char) := do
  match ← openIncluded m site template mayMiss with
  | none => return []
  | some (source, t) =>
      if withContext then
        let context ← newContext (contextFor t (← visibleNames site))
        m.render t context
      else shown (← sharedLibrary m source t)

/-- Imports names from a template. -/
def runNames (m : Machine) (site : Site) (template : Expr) (names : List (String × String))
    (withContext : Bool) : Render Unit := do
  let v ← importedLibrary m site template withContext
  let members ←
    match v with
    | .object id =>
        match ← object? id with
        | some (.library _ members _) => pure members
        | _ => pure []
    | _ => pure []
  for (name, given) in names do
    setHere site given ((members.lookup name).getD .undefined)
  share site (names.map (·.2)) false

/-- Runs a statement; gives what it prints. -/
def perform (m : Machine) (site : Site) : Statement → Render (List Char)
  | .text s => do
      if ← givesWay site then return [] else return s
  | .print value => do
      if ← givesWay site then return []
      else printed site.context (← m.evaluate site value)
  | .branch condition body others otherwise =>
      runBranches m site otherwise ((condition, body) :: others)
  | .loop target items condition recursive body otherwise => do
      let v ← m.evaluate site items
      runLoop m ⟨target, condition, body, otherwise, { site with outermost := false }⟩ recursive 0 v
  | .assign target value => do
      for r in target.records do let _ ← recordOf site r
      assign site target (← m.evaluate site value)
      share site target.names true
      return []
  | .capture target filter body => do
      runCapture m site target filter body
      return []
  | .bind bindings body => do
      let known ← knownNames site.frames
      let inner ← startPart site
        (Bindings.ofBody known (bindings.flatMap fun (t, _) => t.names) body)
      for (t, e) in bindings do assign inner t (← m.evaluate site e)
      let text ← m.run inner body
      endPart inner
      return text
  | .define name signature body => do
      setHere site name (← routineOf site (some name) signature body)
      share site [name] true
      return []
  | .callWith signature (.call subject arguments) body => do
      let caller ← routineOf site none signature body
      let f ← m.evaluate site subject
      let g ← given m site arguments
      if (g.named? "caller").isSome then throw .wrongType
      rawText (← m.call site.context f { g with named := g.named ++ [("caller", caller)] })
  | .callWith _ _ _ => throw .badSyntax
  | .filtered filter body => do
      let known ← knownNames site.frames
      let inner ← startPart site (Bindings.ofFiltered known filter body)
      let text ← m.run inner body
      let v ← filterText m inner (← outputText site.context text) filter
      endPart inner
      rawText v
  | .block name sharesNames required _ => runOwnBlock m site name sharesNames required
  | .extension template => do
      runExtension m site template
      return []
  | .inclusion template mayMiss withContext => runInclusion m site template mayMiss withContext
  | .library template target withContext => do
      setHere site target (← importedLibrary m site template withContext)
      share site [target] false
      return []
  | .libraryNames template names withContext => do
      runNames m site template names withContext
      return []
  | .escaping value body => do
      let known ← knownNames site.frames
      let inner ← startPart site (Bindings.ofEscaping known value body)
      let before := (← Render.context site.context).escapes
      let escapes ← isTrue (← m.evaluate inner value)
      changeContext site.context fun c => { c with escapes := escapes }
      let text ← m.run inner body
      changeContext site.context fun c => { c with escapes := before }
      endPart inner
      return text

/-- Runs statements one after another. -/
def performAll (m : Machine) (site : Site) (body : List Statement) : Render (List Char) := do
  return (← body.mapM (perform m site)).flatten

end Folio.Template
