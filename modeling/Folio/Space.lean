import Folio.Layout
import Folio.Session

/-!
# Spaces of a workspace

A workspace may declare several spaces, each with templates and output of its
own, in a file of its sentinel directory.  Without such a file, or with an empty
list, it has one space with fixed directories.

`loadSpaces` reads the declaration; what it accepts has at least one space, and
names that are distinct and not blank.
-/

namespace Folio

open Text

/-- A space: its name, and its directories as written. -/
structure Space where
  name : String
  templates : Path
  output : Path
  deriving Repr, DecidableEq

/-- The spaces of a workspace.  `legacy` marks the one that is built in, `source`
is the file that was read. -/
structure SpaceConfig where
  root : Path
  spaces : List Space
  defaultName : Option String
  legacy : Bool
  source : Option Path
  deriving Repr, DecidableEq

/-- The files that may declare spaces, in order. -/
def configNames : List String :=
  ["spaces.json", "spaces.yml", "spaces.yaml"]

/-- The space of a workspace that declares none. -/
def legacySpace : Space :=
  ⟨"legacy", Path.ofString (sentinelName ++ "/templates"), Path.ofString (sentinelName ++ "/dist")⟩

namespace Space

/-- The layout of a space in a workspace. -/
def layout (s : Space) (root : Path) : Except Cause Layout :=
  (Layout.create root root s.templates s.output).mapError Cause.ofUnusable

end Space

namespace SpaceConfig

/-- The space of a name. -/
def get (c : SpaceConfig) (name : String) : Except Failure Space :=
  match c.spaces.find? fun s => s.name = name with
  | some s => .ok s
  | none =>
      let known := ", ".intercalate (c.spaces.map (·.name))
      .error (.config ("Unknown space " ++ quoted name ++ s!" (known: {known})"))

/-- The space that is meant if none is named. -/
def default (c : SpaceConfig) : Except Failure Space :=
  match c.defaultName with
  | some name => c.get name
  | none =>
      match c.spaces with
      | s :: _ => .ok s
      | [] => c.get ""

/-- The layout of a space. -/
def layout (c : SpaceConfig) (s : Space) : Except Cause Layout :=
  s.layout c.root

end SpaceConfig

/-! ## Reading the declaration -/

/-- The file that declares the spaces of a workspace. -/
def findConfig (t : FileTree) (root : Path) : Except Cause (Option Path) :=
  let rec search : List String → Except Cause (Option Path)
    | [] => .ok none
    | name :: rest => do
        let candidate := root / sentinelName / name
        if ← (t.isFile candidate).mapError Cause.file then return some candidate
        search rest
  search configNames

/-- The data of a declaration; a blank file holds an empty mapping. -/
def readConfig (t : FileTree) (p : Path) : Except Cause Data.Value := do
  let text ← t.readText p
  if (trim text).isEmpty then return .map []
  else if p.suffix = ".json" then (Data.Json.read text).mapError Cause.json
  else (Data.Yaml.load text).mapError Cause.yaml

/-- Whether a declaration that fails in this way is reported as unreadable. -/
def isConfigFault : Cause → Bool
  | .yaml .tooLarge => false
  | .yaml .noKey => false
  | .yaml .noIndex => false
  | .yaml .noMatch => false
  | _ => true

/-- A text of an entry that must not be blank, without blanks around it. -/
def requiredText (entry : List (Data.Value × Data.Value)) (key : String) (index : Nat) :
    Except Failure String :=
  let fail := Except.error (Failure.config s!"spaces[{index}].{key} must be a non-empty string")
  match Data.Value.field? entry key with
  | some (.text s) =>
      let value := trim s.toList
      if value.isEmpty then fail else .ok (String.ofList value)
  | _ => fail

/-- The spaces of a list of entries, after `done`, the entries before them. -/
def readSpaces : Nat → List Space → List Data.Value → Except Failure (List Space)
  | _, done, [] => .ok done
  | index, done, .map entry :: rest => do
      let space : Space :=
        ⟨← requiredText entry "name" index,
          Path.ofString (← requiredText entry "templateRoot" index),
          Path.ofString (← requiredText entry "distDir" index)⟩
      if done.any fun s => s.name = space.name then
        throw (.config ("Duplicate space name " ++ quoted space.name))
      readSpaces (index + 1) (done ++ [space]) rest
  | index, _, _ :: _ => .error (.config s!"spaces[{index}] must be an object/mapping.")

/-- Reports spaces whose output goes to the directory of an earlier one. -/
def warnShared (root : Path) : List (Path × String) → List Space → Action Unit
  | _, [] => return ()
  | seen, s :: rest => do
      let l ← Action.orRaise (s.layout root)
      match seen.find? fun (p, _) => p = l.output with
      | some (_, name) =>
          Action.warn "spaces"
            ("Spaces " ++ quoted name ++ " and " ++ quoted s.name ++
              s!" share output directory {l.output}")
          warnShared root seen rest
      | none => warnShared root (seen ++ [(l.output, s.name)]) rest

/-- The configuration of a workspace whose only space is built in. -/
def legacyConfig (root : Path) (source : Option Path) : SpaceConfig :=
  ⟨root, [legacySpace], none, true, source⟩

/-- The default space that is asked for, if there is one of that name; another
name is reported. -/
def chooseDefault (spaces : List Space) (first : Space) : Option Data.Value → Action String
  | none => return first.name
  | some .null => return first.name
  | some (.text name) => do
      if name.isEmpty then return first.name
      else if spaces.any fun s => s.name = name then return name
      else
        Action.warn "spaces"
          ("defaultSpace " ++ quoted name ++ " is not a configured space; using " ++
            quoted first.name)
        return first.name
  | some _ => throw (.config "\x60defaultSpace\x60 must be a string when provided.")

/-- The data of the file that declares spaces, as a mapping. -/
def configItems (p : Path) : Action (List (Data.Value × Data.Value)) := do
  match readConfig (← Action.files) p with
  | .error cause =>
      if isConfigFault cause then throw (.unreadableConfig p cause) else throw (.raised cause)
  | .ok .null => return []
  | .ok (.map items) => return items
  | .ok _ =>
      throw (.config s!"{p.name} must contain an object/mapping at the top level.")

/-- The spaces that the data of a declaration lists. -/
def listedSpaces (items : List (Data.Value × Data.Value)) : Except Failure (List Data.Value) :=
  match Data.Value.field? items "spaces" with
  | none => .ok []
  | some (.list entries) => .ok entries
  | some value =>
      if value.isEmpty then .ok []
      else .error (.config "\x60spaces\x60 must be a list when provided.")

/-- The spaces of the workspace at a directory, which is given from `here`. -/
def loadSpaces (here workspace : Path) : Action SpaceConfig := do
  let root ← Action.orRaise ((Path.resolve here workspace).mapError Cause.ofUnusable)
  match ← Action.orRaise (findConfig (← Action.files) root) with
  | none => return legacyConfig root none
  | some source =>
      let items ← configItems source
      let entries ← ExceptT.mk (pure (listedSpaces items))
      let spaces ← ExceptT.mk (pure (readSpaces 0 [] entries))
      match spaces with
      | [] =>
          Action.warn "spaces" s!"{source} declares no spaces; falling back to legacy mode"
          return legacyConfig root (some source)
      | first :: _ =>
          let name ← chooseDefault spaces first (Data.Value.field? items "defaultSpace")
          warnShared root [] spaces
          return ⟨root, spaces, some name, false, some source⟩

/-! ## The space of a file -/

/-- The space with the deepest templates directory that holds a path; of several
as deep, the first. -/
def deepestSpace (root target : Path) :
    Option (Nat × Space) → List Space → Except Cause (Option Space)
  | best, [] => .ok (best.map (·.2))
  | best, s :: rest => do
      let l ← s.layout root
      let depth := l.templates.parts.length
      if Path.isUnder l.templates target && best.all fun b => b.1 < depth then
        deepestSpace root target (some (depth, s)) rest
      else deepestSpace root target best rest

/-- The space whose templates hold the file at a path, given from `here`. -/
def findSpace (c : SpaceConfig) (here p : Path) : Except Cause (Option Space) := do
  let target ← (Path.resolve here p).mapError Cause.ofUnusable
  deepestSpace c.root target none c.spaces

end Folio
