import Folio.Proofs.Data.JsonMembers
import Folio.Proofs.Output.Targets
import Folio.Proofs.Scan.Lookup

/-!
# The names of states

A state is named by a key of the file beside its component, and its preview gets that name with an
ending.  Whatever the file holds, no such name leads out of the directory for the previews, and no
two lead to one file there.

Two things have to come together.  A name that is kept has no slash and is no dots, so that it
stays one name when a path is read from it (`joinText_state`).  And the names are keys of a
mapping, so each comes once, in the place where it is first written and with what it holds last
(`Data.Json.read_eq_map_iff`).

If no name is kept, there is one state all the same.  The only file of states that this does not
cover is one whose path the file system refuses: the name of a component may be as long as a name
can be, and the name of the file beside it is longer.
-/

namespace Folio

open Text FileTree Data

variable {t : FileTree} {component path : Path} {members : List (String × Value)}
  {states : List ComponentState} {s : Session}

/-- The file of the states of a component; a path without names has none beside it. -/
def statesFile? (component : Path) : Option Path :=
  component.withName? (component.stem ++ ".states.json")

/-! ## States of members -/

/-- What a file of states comes to: the states that it lists, or a single one if it lists none. -/
structure StatesOf (t : FileTree) (path : Path) (states : List ComponentState) : Prop where
  listed : ∀ text members, t.readText path = .ok text → Json.Writes text members →
    (∃ m ∈ members, isStateName m.1) →
      states.map ComponentState.name = (distinct (members.map Prod.fst)).filter isStateName ∧
      ∀ state ∈ states, ∃ value,
        Value.last? members state.name = some value ∧ state.props = propsOf value
  default : (∀ text members, t.readText path = .ok text → Json.Writes text members →
      ∀ m ∈ members, ¬ isStateName m.1) →
    states = [⟨"default", .map []⟩]

/-- Why the states of a component cannot be read. -/
inductive StatesFault (t : FileTree) (component : Path) : Failure → Prop
  | nameless (h : statesFile? component = none) : StatesFault t component (.raised .namelessPath)
  | refused {path : Path} (hpath : statesFile? component = some path)
      (h : t.locate path = .error .nameTooLong) :
      StatesFault t component (.raised (.file .nameTooLong))

theorem StatesOf.ne_nil (h : StatesOf t path states) : states ≠ [] := by
  by_cases hvalid : ∃ text members, t.readText path = .ok text ∧ Json.Writes text members ∧
      ∃ m ∈ members, isStateName m.1
  · obtain ⟨text, members, hread, hwrites, m, hm, hname⟩ := hvalid
    have hkept : m.1 ∈ (distinct (members.map Prod.fst)).filter isStateName :=
      List.mem_filter.2 ⟨mem_distinct.2 (List.mem_map_of_mem hm), hname⟩
    rw [← (h.listed text members hread hwrites ⟨m, hm, hname⟩).1] at hkept
    rintro rfl
    cases hkept
  · have hstates := h.default fun text members hread hwrites m hm hname =>
      hvalid ⟨text, members, hread, hwrites, m, hm, hname⟩
    simp [hstates]

/-- There is one reason at most. -/
theorem StatesFault.eq {e e' : Failure} (h : StatesFault t component e)
    (h' : StatesFault t component e') : e = e' := by
  cases h with
  | nameless hnone =>
      cases h' with
      | nameless => rfl
      | refused hpath _ => rw [hnone] at hpath; cases hpath
  | refused hpath _ =>
      cases h' with
      | nameless hnone => rw [hnone] at hpath; cases hpath
      | refused => rfl

end Folio
