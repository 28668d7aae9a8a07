import Folio.Text.Blank
import Folio.Text.LetterCase
import Folio.Text.WordChar

/-!
# Finding patterns in a text

A *pattern* is a function that reads at the start of a text and returns what it
found and the rest.  `occurrences` tries it at every place from the left and
resumes after each match; `firstMatch` stops at the first.  Places are offsets in
characters, and lines are counted by line feeds alone.
-/

namespace Folio.Text

/-- Reads something at the start of a text: a value and what follows it. -/
abbrev Pattern (α : Type) := List Char → Option (α × List Char)

/-- Something found in a text, and how many characters stand before it. -/
structure Located (α : Type) where
  offset : Nat
  value : α
  deriving Repr, DecidableEq

/-- The matches of a pattern, `skip` characters of the text being part of a match
already found and `offset` being those before the text. -/
def occurrencesFrom {α : Type} (pattern : Pattern α) :
    Nat → Nat → List Char → List (Located α)
  | _, _, [] => []
  | offset, skip + 1, _ :: s => occurrencesFrom pattern (offset + 1) skip s
  | offset, 0, c :: s =>
      match pattern (c :: s) with
      | some (value, rest) =>
          ⟨offset, value⟩ :: occurrencesFrom pattern (offset + 1) (s.length - rest.length) s
      | none => occurrencesFrom pattern (offset + 1) 0 s

/-- The matches of a pattern from the left, none overlapping another. -/
def occurrences {α : Type} (pattern : Pattern α) (s : List Char) : List (Located α) :=
  occurrencesFrom pattern 0 0 s

/-- The first match in a text of which `before` is the preceding character. -/
def firstMatchAfter {α : Type} (pattern : Option Char → Pattern α) :
    Nat → Option Char → List Char → Option (Located α)
  | _, _, [] => none
  | offset, before, c :: s =>
      match pattern before (c :: s) with
      | some (value, _) => some ⟨offset, value⟩
      | none => firstMatchAfter pattern (offset + 1) (some c) s

/-- The first match of a pattern that may look at the character before it. -/
def firstMatch {α : Type} (pattern : Option Char → Pattern α) (s : List Char) :
    Option (Located α) :=
  firstMatchAfter pattern 0 none s

/-- The line, counted from one, of the character at an offset. -/
def lineOf (s : List Char) (offset : Nat) : Nat :=
  (s.take offset).count '\n' + 1

/-- The line at an offset that may be counted back from the end of the text and
may lie outside it. -/
def lineAt (s : List Char) (offset : Int) : Nat :=
  lineOf s (if offset < 0 then offset + s.length else offset).toNat

/-! ## Small patterns -/

/-- What follows `word` at the start of a text. -/
def dropWord : List Char → List Char → Option (List Char)
  | [], s => some s
  | _ :: _, [] => none
  | a :: word, c :: s => if a = c then dropWord word s else none

/-- What follows a word in any case; the word is given in lower case. -/
def dropWordAnyCase : List Char → List Char → Option (List Char)
  | [], s => some s
  | _ :: _, [] => none
  | a :: word, c :: s =>
      if a = c || (a.isAlpha && sameLetter a c) then dropWordAnyCase word s else none

/-- Drops a character at the start if it is one of `marks`. -/
def dropOne (marks : List Char) : List Char → List Char
  | c :: s => if marks.contains c then s else c :: s
  | [] => []

/-- Drops blanks. -/
def dropBlanks (s : List Char) : List Char :=
  s.dropWhile isBlank

/-- Drops blanks, of which there must be one. -/
def dropSomeBlanks : List Char → Option (List Char)
  | c :: s => if isBlank c then some (dropBlanks s) else none
  | [] => none

/-- The word among `words` at the start of a text, with what follows it. -/
def dropAnyOf (words : List String) (s : List Char) : Option (String × List Char) :=
  words.findSome? fun word => (dropWord word.toList s).map fun rest => (word, rest)

/-- Whether a word may begin after `before`. -/
def wordMayBegin (before : Option Char) : Bool :=
  match before with
  | some c => !isWord c
  | none => true

/-- Whether a word ends in front of a text. -/
def wordEnds : List Char → Bool
  | c :: _ => !isWord c
  | [] => true

/-! ## Values -/

/-- A value without white space around it and without the pair of quotation
marks around that. -/
def unquote (value : List Char) : List Char :=
  let v := trim value
  match v with
  | q :: body =>
      if (q == '\'' || q == '"') && body.getLast? = some q then trim body.dropLast else v
  | [] => v

/-- The values of a list written with separators, empty ones left out. -/
def listValues (isSeparator : Char → Bool) (s : List Char) : List (List Char) :=
  ((splitBy isSeparator s).map unquote).filter fun v => !v.isEmpty

/-- The values of a list without brackets, separated by commas. -/
def commaValues (s : List Char) : List (List Char) :=
  listValues (· == ',') s

/-- The distinct members of a list, in order of first appearance. -/
def distinct {α : Type} [DecidableEq α] (xs : List α) : List α :=
  xs.foldl (fun seen x => if x ∈ seen then seen else seen ++ [x]) []

end Folio.Text
