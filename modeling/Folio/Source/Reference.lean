import Folio.Text.Occurrence

/-!
# References and definitions in templates

Templates are searched for statements between `{%` and `%}` without being
parsed.  A *reference* names another template; a *definition* opens a macro or a
block and is paired with the next closing statement of its kind.
-/

namespace Folio.Source

open Text

/-- The statements that name another template. -/
inductive ReferenceKind
  | include
  | import
  | from
  | extends
  deriving Repr, DecidableEq

/-- The keyword of a reference. -/
def ReferenceKind.keyword : ReferenceKind → String
  | .include => "include"
  | .import => "import"
  | .from => "from"
  | .extends => "extends"

/-- All kinds of references. -/
def ReferenceKind.all : List ReferenceKind :=
  [.include, .import, .from, .extends]

/-- A reference to a template, with the line of its statement. -/
structure Reference where
  kind : ReferenceKind
  target : List Char
  line : Nat
  deriving Repr, DecidableEq

/-- Reads the start of a statement: `{%`, an optional sign, blanks. -/
def statementStart (s : List Char) : Option (List Char) :=
  (dropWord ['{', '%'] s).map fun rest => dropBlanks (dropOne ['-', '+'] rest)

/-- What follows the end of a statement that holds no other percent sign. -/
def statementEnd (s : List Char) : Option (List Char) :=
  dropWord ['%', '}'] (s.dropWhile (· != '%'))

/-- Reads a quoted target without any quotation mark in it. -/
def quotedTarget : Pattern (List Char)
  | [] => none
  | q :: s =>
      if q == '\'' || q == '"' then
        let isMark := fun c : Char => c == '\'' || c == '"'
        let target := s.takeWhile fun c => !isMark c
        match s.dropWhile fun c => !isMark c with
        | closing :: rest => if closing = q && !target.isEmpty then some (target, rest) else none
        | [] => none
      else none

/-- Reads a statement that names another template. -/
def referencePattern : Pattern (ReferenceKind × List Char) := fun s => do
  let body ← statementStart s
  let (kind, afterKind) ← ReferenceKind.all.findSome? fun kind =>
    (dropWord kind.keyword.toList body).map fun rest => (kind, rest)
  let (target, afterTarget) ← quotedTarget (← dropSomeBlanks afterKind)
  let rest ← statementEnd afterTarget
  return ((kind, target), rest)

/-- The references of a text, in order. -/
def references (text : List Char) : List Reference :=
  (occurrences referencePattern text).map fun found =>
    ⟨found.value.1, found.value.2, lineOf text found.offset⟩

/-! ## Definitions -/

/-- What a definition defines. -/
inductive DefinitionKind
  | namedBlock
  | namedMacro
  deriving Repr, DecidableEq

/-- The keyword of a definition. -/
def DefinitionKind.keyword : DefinitionKind → String
  | .namedBlock => "block"
  | .namedMacro => "macro"

/-- A macro or block, with the line it begins on and the line of the closing
statement paired with it. -/
structure Definition where
  kind : DefinitionKind
  name : List Char
  line : Nat
  endLine : Option Nat
  deriving Repr, DecidableEq

/-- Reads the start of a macro: its name and the bracket that opens its
parameters. -/
def macroPattern : Pattern (List Char) := fun s => do
  let body ← statementStart s
  match ← (dropWord "macro".toList body).bind dropSomeBlanks with
  | c :: rest =>
      if c.isAlpha || c == '_' then
        let after ← dropWord ['('] (dropBlanks (rest.dropWhile isWord))
        return (c :: rest.takeWhile isWord, after)
      else none
  | [] => none

/-- Reads the start of a block: its name. -/
def blockPattern : Pattern (List Char) := fun s => do
  let body ← statementStart s
  let rest ← (dropWord "block".toList body).bind dropSomeBlanks
  let name := rest.takeWhile isWord
  if name.isEmpty then none else return (name, rest.dropWhile isWord)

/-- Reads the start of the statement that closes a definition. -/
def closingPattern (kind : DefinitionKind) : Pattern Unit := fun s => do
  let body ← statementStart s
  let rest ← dropWord ("end" ++ kind.keyword).toList body
  if wordEnds rest then return ((), rest) else none

/-- The name of the first macro of a text. -/
def firstMacroName? (text : List Char) : Option (List Char) :=
  (firstMatch (fun _ => macroPattern) text).map (·.value)

/-- The definitions of one kind with their offsets. -/
def definitionsOf (kind : DefinitionKind) (pattern : Pattern (List Char)) (text : List Char) :
    List (Located Definition) :=
  let ends := (occurrences (closingPattern kind) text).map (·.offset)
  (occurrences pattern text).map fun found =>
    ⟨found.offset, kind, found.value, lineOf text found.offset,
      (ends.find? fun e => found.offset < e).map (lineOf text)⟩

/-- The macros and blocks of a text in the order in which they begin. -/
def definitions (text : List Char) : List Definition :=
  let found :=
    definitionsOf .namedBlock blockPattern text ++ definitionsOf .namedMacro macroPattern text
  (found.mergeSort fun a b => a.offset ≤ b.offset).map (·.value)

end Folio.Source
