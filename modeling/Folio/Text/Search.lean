import Folio.Text.Occurrence

/-!
# Searching texts

Where a part stands in a text, and texts cut or changed at such places.  A part
without characters stands before every character and at the end.
-/

namespace Folio.Text

/-- How many characters stand before a part, counted on from `count`. -/
def findFrom (part : List Char) : Nat → List Char → Option Nat
  | count, s =>
      if part.isPrefixOf s then some count
      else
        match s with
        | [] => none
        | _ :: rest => findFrom part (count + 1) rest

/-- How many characters stand before the first place of a part. -/
def find? (part s : List Char) : Option Nat :=
  findFrom part 0 s

/-- How many characters stand before the last place of a part. -/
def findLast? (part s : List Char) : Option Nat :=
  (find? part.reverse s.reverse).map fun n => s.length - n - part.length

/-- The pieces of a text between places of a part, at most `limit` of them used.
The text still to go through is the last argument but one; the last is the piece
begun, last character first. -/
def cutFrom (part : List Char) : Nat → Nat → List Char → List Char → List (List Char)
  | 0, _, _, piece => [piece.reverse]
  | _, 0, s, piece => [piece.reverse ++ s]
  | _ + 1, _ + 1, [], piece => [piece.reverse]
  | fuel + 1, limit + 1, c :: rest, piece =>
      match dropWord part (c :: rest) with
      | some after => piece.reverse :: cutFrom part fuel limit after []
      | none => cutFrom part fuel (limit + 1) rest (c :: piece)

/-- The pieces of a text between places of a part that has characters. -/
def cutAt (part : List Char) (limit : Option Nat) (s : List Char) : List (List Char) :=
  cutFrom part (s.length + 1) (limit.getD (s.length + 1)) s []

/-- A text with a part replaced, at the first `limit` places. -/
def replaceAll (part new : List Char) (limit : Option Nat) (s : List Char) : List Char :=
  if part.isEmpty then
    let limit := limit.getD (s.length + 1)
    let spread := (s.zipIdx).flatMap fun (c, i) => if i < limit then new ++ [c] else [c]
    if s.length < limit then spread ++ new else spread
  else joinWith new (cutAt part limit s)

/-- At how many places a part stands, none overlapping another. -/
def countOf (part s : List Char) : Nat :=
  if part.isEmpty then s.length + 1 else (cutAt part none s).length - 1

/-- The words of a text, at most `limit` cut off; the rest, from its first
character that is not blank on, is the last. -/
def wordsUpTo : Nat → Nat → List Char → List (List Char)
  | 0, _, _ => []
  | fuel + 1, limit, s =>
      match s.dropWhile isBlank with
      | [] => []
      | c :: rest =>
          match limit with
          | 0 => [trimRight isBlank (c :: rest)]
          | limit + 1 =>
              (c :: rest).takeWhile (fun c => !isBlank c) ::
                wordsUpTo fuel limit ((c :: rest).dropWhile fun c => !isBlank c)

end Folio.Text
