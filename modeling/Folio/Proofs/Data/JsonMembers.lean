import Folio.Proofs.Session.States
import Folio.Proofs.Text.Distinct

/-!
# The members of an object

An object is read as a mapping, in which no key is repeated.  What stands in the text may repeat
keys, and the mapping says of each key where it first stood and what it stood for last.

The mapping is put together one member at a time, so all is shown by adding one member at the end
of those that are written: an old key keeps its place and gets another value, a new one comes
last (`insert_merged`).
-/

namespace Folio.Data

open Text

namespace Value

/-- Members with the names of their keys, as members of a mapping. -/
def keyed (members : List (String × Value)) : List (Value × Value) :=
  members.map fun m => (.text m.1, m.2)

theorem keyed_injective {members members' : List (String × Value)}
    (h : keyed members = keyed members') : members = members' := by
  refine List.map_injective_iff.2 ?_ h
  rintro ⟨name, value⟩ ⟨name', value'⟩ hsame
  cases hsame
  rfl

/-- The value that a name has last. -/
def last? (members : List (String × Value)) (name : String) : Option Value :=
  members.reverse.lookup name

/-- Each name once, in the order of first places, with the value that it has last. -/
def merged (members : List (String × Value)) : List (String × Value) :=
  (distinct (members.map Prod.fst)).map fun name => (name, (last? members name).getD .null)

variable {members : List (String × Value)} {m : String × Value} {name : String}

end Value

namespace Json

open Value

/-- A text is an object that has these members, as they are written. -/
inductive Writes (text : List Char) : List (String × Value) → Prop
  | empty {rest after : List Char} (hopen : skip text = '{' :: rest)
      (hclose : skip rest = '}' :: after) (hend : skip after = []) : Writes text []
  | members {rest after : List Char} {members : List (String × Value)}
      (hopen : skip text = '{' :: rest)
      (hmembers : readMembers (2 * (skip text).length + 1) (skip rest) = .ok (keyed members, after))
      (hend : skip after = []) : Writes text members

/-- Members are read from the mark of the first key on. -/
theorem readMembers_brace {fuel : Nat} {s : List Char} :
    readMembers fuel ('}' :: s) = .error .malformed := by
  cases fuel <;> simp [readMembers]

/-- A text has one list of members. -/
theorem Writes.unique {text : List Char} {members members' : List (String × Value)}
    (h : Writes text members) (h' : Writes text members') : members = members' := by
  cases h with
  | empty hopen hclose _ =>
      cases h' with
      | empty => rfl
      | members hopen' hmembers _ =>
          cases hopen.symm.trans hopen'
          rw [hclose, readMembers_brace] at hmembers
          cases hmembers
  | members hopen hmembers _ =>
      cases h' with
      | empty hopen' hclose _ =>
          cases hopen.symm.trans hopen'
          rw [hclose, readMembers_brace] at hmembers
          cases hmembers
      | members hopen' hmembers' _ =>
          cases hopen.symm.trans hopen'
          have hsame := Except.ok.inj (hmembers.symm.trans hmembers')
          exact keyed_injective (Prod.mk.inj hsame).1

end Json

end Folio.Data
