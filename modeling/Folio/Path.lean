import Folio.Text.Blank

/-!
# Paths

A path is a list of names below an anchor: the root directory, a root written
with two slashes, or whatever directory the path is later joined to.  Empty
names and `.` are dropped when a path is read; `..` stays until the path is
resolved, which is done by names alone.
-/

namespace Folio

/-- What the names of a path are below. -/
inductive Anchor
  | relative
  | root
  | doubleRoot
  deriving Repr, DecidableEq

/-- A path to a file or directory. -/
structure Path where
  anchor : Anchor
  parts : List String
  deriving Repr, DecidableEq

namespace Path

/-- The text that an anchor begins a path with. -/
def anchorText : Anchor → String
  | .relative => ""
  | .root => "/"
  | .doubleRoot => "//"

/-- The anchor of a text: exactly two leading slashes are an anchor of their own. -/
def anchorOf : List Char → Anchor
  | '/' :: '/' :: '/' :: _ => .root
  | '/' :: '/' :: _ => .doubleRoot
  | '/' :: _ => .root
  | _ => .relative

/-- Reads a path. -/
def ofChars (s : List Char) : Path :=
  let names := (Text.splitAt '/' s).filter fun name => !name.isEmpty && name ≠ ['.']
  ⟨anchorOf s, names.map String.ofList⟩

/-- Reads a path from a string. -/
def ofString (s : String) : Path :=
  ofChars s.toList

/-- The path written out; a relative path without names is `.`. -/
def toString (p : Path) : String :=
  if p.anchor = .relative && p.parts.isEmpty then "."
  else anchorText p.anchor ++ "/".intercalate p.parts

instance : ToString Path := ⟨Path.toString⟩

/-- The path that `rest` names from the directory `base`. -/
def join (base rest : Path) : Path :=
  if rest.anchor = .relative then ⟨base.anchor, base.parts ++ rest.parts⟩ else rest

instance : HDiv Path Path Path := ⟨Path.join⟩

/-- The path that a text names from a directory. -/
def joinText (base : Path) (rest : String) : Path :=
  base.join (ofString rest)

instance : HDiv Path String Path := ⟨Path.joinText⟩

/-- The directory that holds a path. -/
def parent (p : Path) : Path :=
  ⟨p.anchor, p.parts.dropLast⟩

/-- The last name of a path, empty if there is none. -/
def name (p : Path) : String :=
  p.parts.getLast?.getD ""

/-- A name cut before its last dot, if the dot is neither its first nor its last
character. -/
def splitName (name : String) : List Char × List Char :=
  let reversed := name.toList.reverse
  let ending := (reversed.takeWhile (· != '.')).reverse
  match reversed.dropWhile (· != '.') with
  | _ :: front =>
      if front.isEmpty || ending.isEmpty then (name.toList, []) else (front.reverse, '.' :: ending)
  | [] => (name.toList, [])

/-- The ending of the last name, from its last dot on. -/
def suffix (p : Path) : String :=
  String.ofList (splitName p.name).2

/-- The last name without its ending. -/
def stem (p : Path) : String :=
  String.ofList (splitName p.name).1

/-- The path with another last name; a path without names has none to change. -/
def withName? (p : Path) (name : String) : Option Path :=
  if p.name.isEmpty then none else some ⟨p.anchor, p.parts.dropLast ++ [name]⟩

/-- Whether the path begins at a root. -/
def isAbsolute (p : Path) : Bool :=
  p.anchor != .relative

/-- The path from the directory `base`, if `p` lies in it or is it. -/
def relativeTo? (p base : Path) : Option Path :=
  if p.anchor = base.anchor && base.parts.isPrefixOf p.parts then
    some ⟨.relative, p.parts.drop base.parts.length⟩
  else none

/-- Whether a path lies in a directory or is that directory. -/
def isUnder (directory p : Path) : Bool :=
  (p.relativeTo? directory).isSome

/-! ## Order -/

/-- The names that a path is ordered by; a root counts as a name. -/
def orderKey (p : Path) : List String :=
  if p.anchor = .relative then p.parts else anchorText p.anchor :: p.parts

/-- Lexicographic order of lists of names. -/
def namesLE : List String → List String → Bool
  | [], _ => true
  | _ :: _, [] => false
  | a :: as, b :: bs => if a = b then namesLE as bs else decide (a < b)

/-- The order of paths, name by name. -/
def le (p q : Path) : Bool :=
  namesLE p.orderKey q.orderKey

/-- Paths in order, without repetitions. -/
def sortDistinct (paths : List Path) : List Path :=
  (paths.eraseDups).mergeSort le

/-! ## Resolving -/

/-- Why a path cannot be resolved: a name holds a null character. -/
inductive Unusable
  | nullCharacter
  deriving Repr, DecidableEq

/-- Appends names to names that hold no `..`; each `..` removes the name before
it, and there is nothing above the root. -/
def normalParts (done : List String) (names : List String) : List String :=
  names.foldl (fun acc name => if name = ".." then acc.dropLast else acc ++ [name]) done

/-- The path from the root that `p` names from the directory `here`. -/
def absolute (here p : Path) : Path :=
  ⟨.root, normalParts [] (here.join p).parts⟩

/-- Whether a name can name a file. -/
def isUsable (name : String) : Bool :=
  !name.toList.contains '\x00'

/-- `absolute`, if no name holds a null character. -/
def resolve (here p : Path) : Except Unusable Path :=
  if (here.join p).parts.all isUsable then .ok (absolute here p) else .error .nullCharacter

/-- The root directory. -/
def top : Path :=
  ⟨.root, []⟩

/-- A path from the root without `.` and `..`, if no name holds a null character. -/
def resolved (p : Path) : Except Unusable Path :=
  resolve top p

/-- The longest common beginning of two lists of names. -/
def commonNames : List String → List String → List String
  | a :: as, b :: bs => if a = b then a :: commonNames as bs else []
  | _, _ => []

/-- The way from one directory to a file, both given from the root. -/
def wayTo (source target : List String) : List String :=
  let shared := (commonNames source target).length
  List.replicate (source.length - shared) ".." ++ target.drop shared

/-- The relative reference from a directory to a file, as a link in a page. -/
def relativeHref (here source target : Path) : String :=
  match wayTo (absolute here source).parts (absolute here target).parts with
  | [] => "."
  | names => "/".intercalate names

end Path

end Folio
