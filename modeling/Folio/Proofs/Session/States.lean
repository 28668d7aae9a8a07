import Folio.Data.Json
import Folio.Proofs.Session.Reads
import Folio.States
import Mathlib.Data.List.Basic

/-!
# Reading the states of a component

The states of a component depend on the file beside it alone.  Their names can be names
of files, and no two states have the same.

This is so because reading an object puts its members together one after another, each in
the place of a member with an equal key if there is one.  No two keys of what is read are
equal, then.
-/

/-! ## Members of an object -/

namespace Folio.Data

namespace Value

variable {items : List (Value × Value)} {key value : Value}

/-- Members of which no two have equal keys. -/
def Distinct (items : List (Value × Value)) : Prop :=
  items.Pairwise fun first second => first.1.scalarEq second.1 = false

theorem distinct_nil : Distinct [] := List.Pairwise.nil

theorem Distinct.insert (h : Distinct items) : Distinct (Value.insert items key value) := by
  unfold Distinct at h ⊢
  unfold Value.insert
  split
  · -- the keys are as they were
    refine List.pairwise_map.2 (h.imp fun {first second} hne => ?_)
    split <;> split <;> exact hne
  · rename_i hnone
    refine List.pairwise_append.2 ⟨h, List.pairwise_singleton _ _, fun item hitem new hnew => ?_⟩
    obtain rfl := List.mem_singleton.1 hnew
    simpa using fun heq => hnone (List.any_eq_true.2 ⟨item, hitem, heq⟩)

theorem distinct_ofItems (items : List (Value × Value)) : Distinct (ofItems items) := by
  have hfold : ∀ acc, Distinct acc →
      Distinct (items.foldl (fun acc item => insert acc item.1 item.2) acc) := by
    induction items with
    | nil => exact fun acc hacc => hacc
    | cons item rest ih => exact fun acc hacc => ih _ hacc.insert
  exact hfold [] distinct_nil

end Value

namespace Json

open Value

variable {items : List (Value × Value)} {s rest : List Char}

theorem readNumber_ne_map {negative : Bool} : readNumber negative s ≠ .ok (.map items, rest) := by
  unfold readNumber
  intro h
  dsimp only at h
  repeat' split at h
  all_goals cases h

theorem readWord_ne_map : readWord s ≠ some (.map items, rest) := by
  intro h
  obtain ⟨⟨word, value⟩, hmem, hvalue⟩ := List.exists_of_findSome?_eq_some h
  dsimp only at hvalue
  split at hvalue
  · cases hvalue
    revert hmem
    simp [words]
  · cases hvalue

/-- A value that is built from what was read. -/
theorem exists_of_bind {α : Type} {read : Except Fault (α × List Char)} {g : α → Value}
    {value : Value} (h : (read >>= fun found => pure (g found.1, found.2)) = .ok (value, rest)) :
    ∃ x, value = g x := by
  cases read with
  | error => cases h
  | ok found =>
      cases h
      exact ⟨found.1, rfl⟩

/-- An object that is read has no two members with equal keys. -/
theorem distinct_of_readValue {fuel : Nat} (h : readValue fuel s = .ok (.map items, rest)) :
    Distinct items := by
  cases fuel with
  | zero => simp [readValue] at h
  | succ fuel =>
      unfold readValue at h
      split at h
      · obtain ⟨chars, hvalue⟩ := exists_of_bind (g := fun chars => .text (String.ofList chars)) h
        cases hvalue
      · split at h
        · cases h
          exact distinct_nil
        · obtain ⟨members, hvalue⟩ := exists_of_bind (g := fun items => .map (ofItems items)) h
          cases hvalue
          exact distinct_ofItems members
      · split at h
        · cases h
        · obtain ⟨values, hvalue⟩ := exists_of_bind (g := .list) h
          cases hvalue
      · split at h
        · rename_i found hword
          cases h
          exact absurd hword readWord_ne_map
        · split at h
          · exact absurd h readNumber_ne_map
          · exact absurd h readNumber_ne_map

theorem distinct_of_read {text : List Char} (h : read text = .ok (.map items)) :
    Distinct items := by
  unfold read at h
  dsimp only at h
  cases hvalue : readValue (2 * (skip text).length + 2) (skip text) with
  | error => rw [hvalue] at h; cases h
  | ok found =>
      obtain ⟨value, rest⟩ := found
      rw [hvalue] at h
      simp only [bind, Except.bind] at h
      split at h
      · cases h
        exact distinct_of_readValue hvalue
      · cases h

end Json

end Folio.Data

namespace Folio

open Folio.Action

/-! ## What is read -/

/-- The file of states is looked at once. -/
theorem stateMembers_eq_bind (component states : Path) :
    ∃ f : FileTree → Action (List (Data.Value × Data.Value)), (∀ t, (f t).Blind) ∧
      (∀ t t' : FileTree, t.stat states = t'.stat states → f t = f t') ∧
      stateMembers component states = files >>= f := by
  refine ⟨_, fun t => ?_, fun t t' hstat => ?_, rfl⟩
  · refine (blind_orRaise _).bind fun there => ?_
    split
    · dsimp only
      split
      · exact blind_pure _
      · exact (blind_warn _ _).bind fun _ => blind_pure _
      · exact (blind_warn _ _).bind fun _ => blind_pure _
    · exact blind_pure _
  · simp only [FileTree.isFile, FileTree.probe, FileTree.readText, FileTree.read, hstat]

theorem reads_stateMembers (component states : Path) :
    Reads (stateMembers component states) := by
  obtain ⟨f, hblind, -, heq⟩ := stateMembers_eq_bind component states
  rw [heq]
  exact .bind reads_files fun t => (hblind t).reads

theorem blind_readStates (component : Path) (members : List (Data.Value × Data.Value)) :
    Blind (readStates component members) := by
  induction members using readStates.induct with
  | case1 => exact blind_pure _
  | case2 rest name definition hname ih =>
      unfold readStates
      rw [if_pos hname]
      exact .bind ih fun _ => blind_pure _
  | case3 rest name definition hname ih =>
      unfold readStates
      rw [if_neg hname]
      exact .bind (blind_warn _ _) fun _ => ih
  | case4 m rest hm ih =>
      rw [readStates]
      · exact ih
      · exact hm

theorem reads_loadStates (component : Path) : Reads (loadStates component) := by
  unfold loadStates
  split
  · exact reads_throw _
  · refine .bind (reads_stateMembers _ _) fun members => ?_
    refine .bind (blind_readStates _ _).reads fun states => ?_
    split
    · exact reads_pure _
    · exact reads_pure _

/-- The name of a file of states never goes up. -/
theorem append_states_ne (stem : String) : stem ++ ".states.json" ≠ ".." := by
  intro h
  have hlength := congrArg (fun s : String => s.toList.length) h
  rw [String.toList_append, List.length_append] at hlength
  exact absurd hlength (by simp)

/-- The states of a component are the same in two trees in which their file is. -/
theorem loadStates_congr {component : Path} {t t' : FileTree}
    (hstat : ∀ path, component.withName? (component.stem ++ ".states.json") = some path →
      t.stat path = t'.stat path) :
    (loadStates component).outcome t = (loadStates component).outcome t' := by
  unfold loadStates
  split
  · rfl
  · rename_i path hpath
    refine outcome_bind_congr (reads_stateMembers _ _) (fun members => ?_) ?_
    · refine (blind_readStates _ _).bind fun states => ?_
      split
      · exact blind_pure _
      · exact blind_pure _
    · obtain ⟨f, hblind, hsame, heq⟩ := stateMembers_eq_bind component path
      rw [heq]
      show (f t).outcome t = (f t').outcome t'
      rw [hsame t t' (hstat path hpath)]
      exact (hblind t').outcome_eq t t'

/-! ## The names of states -/

/-- The members of a file of states have keys that differ. -/
theorem stateMembers_ends {component states : Path} {s : Session} :
    Ends (stateMembers component states) s (fun members _ => Data.Value.Distinct members)
      fun _ _ => True := by
  unfold stateMembers
  rw [ends_bind, Action.ends_files, ends_bind, Action.ends_orRaise]
  split
  · dsimp only
    split
    · split
      · rename_i members hread
        refine ends_pure.2 ?_
        cases htext : s.files.readText states with
        | error => rw [htext] at hread; cases hread
        | ok text =>
            rw [htext] at hread
            cases hjson : Data.Json.read text with
            | error => simp only [bind, Except.bind, hjson] at hread; cases hread
            | ok value =>
                simp only [bind, Except.bind, hjson] at hread
                cases hread
                exact Data.Json.distinct_of_read hjson
      · rw [ends_bind, Action.ends_warn]
        exact ends_pure.2 Data.Value.distinct_nil
      · rw [ends_bind, Action.ends_warn]
        exact ends_pure.2 Data.Value.distinct_nil
    · exact ends_pure.2 Data.Value.distinct_nil
  · trivial

/-- States that have names for files, each a name among the keys of some members. -/
structure NamedStates (members : List (Data.Value × Data.Value)) (states : List ComponentState) :
    Prop where
  isStateName : ∀ state ∈ states, isStateName state.name
  nodup : (states.map ComponentState.name).Nodup
  exists_member : ∀ state ∈ states, ∃ member ∈ members, member.1 = .text state.name

/-- States that are read have different names that files can be given. -/
theorem readStates_ends {component : Path} {members : List (Data.Value × Data.Value)}
    {s : Session} (hdistinct : Data.Value.Distinct members) :
    Ends (readStates component members) s (fun states _ => NamedStates members states)
      fun _ _ => True := by
  induction members using readStates.induct generalizing s with
  | case1 => exact ends_pure.2 ⟨by simp, List.nodup_nil, by simp⟩
  | case2 rest name definition hname ih =>
      obtain ⟨hfirst, hrest⟩ := List.pairwise_cons.1 hdistinct
      unfold readStates
      rw [if_pos hname, ends_bind]
      refine (ih hrest).mono (fun states _ h => ends_pure.2 ⟨?_, ?_, ?_⟩) fun _ _ h => h
      · exact List.forall_mem_cons.2 ⟨hname, h.isStateName⟩
      · refine List.nodup_cons.2 ⟨fun hmem => ?_, h.nodup⟩
        obtain ⟨state, hstate, hsame⟩ := List.mem_map.1 hmem
        obtain ⟨member, hmember, hkey⟩ := h.exists_member state hstate
        have hne := hfirst member hmember
        rw [hkey, hsame] at hne
        simp [Data.Value.scalarEq] at hne
      · refine List.forall_mem_cons.2 ⟨⟨_, List.mem_cons_self .., rfl⟩, fun state hstate => ?_⟩
        obtain ⟨member, hmember, hkey⟩ := h.exists_member state hstate
        exact ⟨member, List.mem_cons_of_mem _ hmember, hkey⟩
  | case3 rest name definition hname ih =>
      unfold readStates
      rw [if_neg hname]
      simp only [ends_bind, Action.ends_warn]
      refine (ih (List.pairwise_cons.1 hdistinct).2).mono (fun states _ h => ?_) fun _ _ h => h
      exact ⟨h.isStateName, h.nodup, fun state hstate =>
        (h.exists_member state hstate).imp fun _ => .imp_left (List.mem_cons_of_mem _)⟩
  | case4 m rest hm ih =>
      rw [readStates]
      · refine (ih (List.pairwise_cons.1 hdistinct).2).mono (fun states _ h => ?_) fun _ _ h => h
        exact ⟨h.isStateName, h.nodup, fun state hstate =>
          (h.exists_member state hstate).imp fun _ => .imp_left (List.mem_cons_of_mem _)⟩
      · exact hm

theorem loadStates_ends {component : Path} {s : Session} :
    Ends (loadStates component) s
      (fun states _ => (∀ state ∈ states, isStateName state.name) ∧
        (states.map ComponentState.name).Nodup)
      fun _ _ => True := by
  unfold loadStates
  split
  · exact ends_throw.2 trivial
  · rw [ends_bind]
    refine stateMembers_ends.mono (fun members s' hdistinct => ?_) fun _ _ _ => trivial
    rw [ends_bind]
    refine (readStates_ends hdistinct).mono (fun states _ hstates => ?_) fun _ _ _ => trivial
    split
    · refine ends_pure.2 ⟨fun state hstate => ?_, by simp⟩
      obtain rfl := List.mem_singleton.1 hstate
      decide
    · exact ends_pure.2 ⟨hstates.isStateName, hstates.nodup⟩

/-- What the states of a component can be, in any tree. -/
theorem names_of_outcome {component : Path} {t : FileTree} {states : List ComponentState}
    (houtcome : (loadStates component).outcome t = .ok states) :
    (∀ state ∈ states, isStateName state.name) ∧ (states.map ComponentState.name).Nodup := by
  have hends := ((reads_loadStates component).ends ⟨t, []⟩).and loadStates_ends
  rcases hends with ⟨-, h⟩ | ⟨-, h⟩
  · have hsame := h.1.2.symm.trans houtcome
    cases hsame
    exact h.2
  · have hsame := h.1.2.symm.trans houtcome
    cases hsame

end Folio
