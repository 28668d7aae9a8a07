import Folio.Source.Tags

/-!
# Relationships between pages

A page names its neighbours under five keys, in a `relationships:` block of the
comment at its top or in comments `{# @rel key: a, b #}` anywhere.  `merged`
collects both per key; targets are kept as written.
-/

namespace Folio.Source

open Text

/-- The keys of relationships. -/
inductive Relation
  | next
  | prev
  | parent
  | children
  | related
  deriving Repr, DecidableEq

namespace Relation

/-- The name of a key. -/
def name : Relation → String
  | .next => "next"
  | .prev => "prev"
  | .parent => "parent"
  | .children => "children"
  | .related => "related"

/-- All keys, in the order in which they are reported. -/
def all : List Relation :=
  [.next, .prev, .parent, .children, .related]

/-- The key of a name. -/
def ofName? (name : List Char) : Option Relation :=
  all.find? fun r => r.name.toList = name

end Relation

/-- A target as its author wrote it, under a key in lower case, with its line. -/
structure RelationshipRef where
  key : List Char
  target : List Char
  line : Nat
  deriving Repr, DecidableEq

/-! ## The block of the top comment -/

/-- The content of a comment at the top of a text and its offset. -/
def headerComment (text : List Char) : Option (Located (List Char)) := do
  let rest ← dropWord ['{', '#'] (dropBlanks text)
  let rest := dropOne ['-'] rest
  let (body, _) ← splitAtWord ['#', '}'] rest
  let content := if body.getLast? = some '-' then body.dropLast else body
  return ⟨text.length - rest.length, content⟩

/-- Reads the word that opens the block. -/
def blockMarkPattern (before : Option Char) : Pattern Unit := fun s =>
  if wordMayBegin before then do
    let rest ← dropWord "relationships".toList s
    let rest ← dropWord [':'] (dropBlanks rest)
    return ((), rest)
  else none

/-- A line of the block without the characters that end it, and its number. -/
structure BlockLine where
  content : List Char
  line : Nat
  deriving Repr, DecidableEq

/-- Numbers lines by the offsets at which they begin. -/
def numberLines (text : List Char) : Nat → List (List Char) → List BlockLine
  | _, [] => []
  | offset, raw :: rest =>
      ⟨trimRight (fun c => c == '\r' || c == '\n') raw, lineOf text offset⟩ ::
        numberLines text (offset + raw.length) rest

/-- Reads a key, a colon and the value on the same line. -/
def keyLine (line : List Char) : Option (List Char × List Char) := do
  let (key, rest) ← dropAnyOf (Relation.all.map Relation.name) (dropBlanks line)
  let rest ← dropWord [':'] (dropBlanks rest)
  return (key.toList, trim rest)

/-- The items with dashes on the lines that follow a key. -/
def followingItems (key : List Char) (rest : List BlockLine) : List RelationshipRef :=
  let items := rest.takeWhile fun l =>
    (keyLine l.content).isNone && (trim l.content).head? = some '-'
  items.filterMap fun l =>
    let value := unquote (trim l.content).tail
    if value.isEmpty then none else some ⟨key, value, l.line⟩

/-- The targets that a line of the block gives, `rest` being the lines after it:
an inline list, else the items that follow, else the value itself. -/
def lineRefs (l : BlockLine) (rest : List BlockLine) : List RelationshipRef :=
  match keyLine l.content with
  | none => []
  | some (key, value) =>
      if value.head? = some '[' && value.contains ']' then
        (commaValues (value.tail.takeWhile (· != ']'))).map fun v => ⟨key, v, l.line⟩
      else
        match followingItems key rest with
        | [] => if value.isEmpty then [] else [⟨key, unquote value, l.line⟩]
        | items => items

/-- The targets that the lines of a block give. -/
def blockLineRefs : List BlockLine → List RelationshipRef
  | [] => []
  | l :: rest => lineRefs l rest ++ blockLineRefs rest

/-- Targets from the block of the top comment. -/
def blockRefs (text : List Char) : List RelationshipRef :=
  match headerComment text with
  | none => []
  | some header =>
      match firstMatch blockMarkPattern header.value with
      | none => []
      | some mark =>
          blockLineRefs (numberLines text (header.offset + mark.offset)
            (linesWithEnds (header.value.drop mark.offset)))

/-! ## Comments with one key -/

/-- Reads `{# @rel key: a, b #}`: the key as written and the value. -/
def directivePattern : Pattern (List Char × List Char) := fun s => do
  let rest ← dropWord ['{', '#'] s
  let rest ← dropWordAnyCase "@rel".toList (dropBlanks (dropOne ['-'] rest))
  let rest ← dropSomeBlanks rest
  let afterKey ← Relation.all.findSome? fun r => dropWordAnyCase r.name.toList rest
  let key := rest.take (rest.length - afterKey.length)
  let value ← dropWord [':'] (dropBlanks afterKey)
  let (content, after) ← commentValue value
  return ((key, content), after)

/-- Targets from comments with one key. -/
def directiveRefs (text : List Char) : List RelationshipRef :=
  (occurrences directivePattern text).flatMap fun found =>
    (commaValues found.value.2).map fun v =>
      ⟨lower found.value.1, v, lineOf text found.offset⟩

/-- All targets, those of the block first. -/
def relationshipRefs (text : List Char) : List RelationshipRef :=
  blockRefs text ++ directiveRefs text

/-! ## Merging -/

/-- Values for each of the five keys. -/
structure Relationships (α : Type) where
  next : List α
  prev : List α
  parent : List α
  children : List α
  related : List α
  deriving Repr, DecidableEq

namespace Relationships

variable {α β : Type}

/-- No values under any key. -/
def empty : Relationships α :=
  ⟨[], [], [], [], []⟩

/-- The values under a key. -/
def get (r : Relationships α) : Relation → List α
  | .next => r.next
  | .prev => r.prev
  | .parent => r.parent
  | .children => r.children
  | .related => r.related

/-- The table of the values that a function gives for each key. -/
def ofFn (f : Relation → List α) : Relationships α :=
  ⟨f .next, f .prev, f .parent, f .children, f .related⟩

/-- Whether any key has a value. -/
def isInhabited (r : Relationships α) : Bool :=
  Relation.all.any fun key => !(r.get key).isEmpty

end Relationships

/-- A key that is none of the five; it can only be met where a letter outside
the basic alphabet counts as the same letter in another case. -/
structure UnknownRelation where
  key : List Char
  deriving Repr, DecidableEq

/-- The targets of a list under one key, without repetitions. -/
def targetsOf (refs : List RelationshipRef) (r : Relation) : List (List Char) :=
  distinct ((refs.filter fun ref => ref.key = r.name.toList).map (·.target))

/-- The targets of a text under each key, in order of first appearance. -/
def merged (text : List Char) : Except UnknownRelation (Relationships (List Char)) :=
  let refs := relationshipRefs text
  match refs.find? fun ref => (Relation.ofName? ref.key).isNone with
  | some ref => .error ⟨ref.key⟩
  | none => .ok (Relationships.ofFn (targetsOf refs))

end Folio.Source
