import Folio.Proofs.Scan.Step

/-!
# What a search reports

A search looks at each file once, and reports what it drops: a reference that leads nowhere, and
a file that cannot be read.  What it reports of a file depends on that file alone
(`visitRecords`), whatever has been found before.  So the reports of a run are those of the files
that it looked at, one file after another, and the files that it visited are those among them
that can be read (`ends_scan`).
-/

namespace Folio

open Text Source

variable {t : FileTree} {l : Layout} {current p : Path} {log : List Record}

/-! ## One file -/

/-- The references that lead nowhere. -/
def droppedReferences (t : FileTree) (l : Layout) (p : Path) (refs : List Reference) :
    List Reference :=
  refs.filter fun ref => resolveReference t l p ref.target = .ok none

/-- The report of a reference that leads nowhere. -/
def droppedRecord (p : Path) (ref : Reference) : Record :=
  ⟨.debug, "scanner",
    s!"Unresolved {ref.kind.keyword} " ++ String.ofList (quote ref.target) ++ s!" in {p}"⟩

/-- What a search reports of a file that it looks at for the first time. -/
def visitRecords (t : FileTree) (l : Layout) (p : Path) : List Record :=
  match t.readText p with
  | .error cause => [⟨.debug, "scanner", s!"Skipping unreadable template {p}: {cause}"⟩]
  | .ok text => (droppedReferences t l p (references text)).map (droppedRecord p)

theorem visitRecords_of_error {cause : Cause} (hread : t.readText p = .error cause) :
    visitRecords t l p = [⟨.debug, "scanner", s!"Skipping unreadable template {p}: {cause}"⟩] := by
  unfold visitRecords
  rw [hread]

theorem visitRecords_of_read {text : List Char} (hread : t.readText p = .ok text) :
    visitRecords t l p = (droppedReferences t l p (references text)).map (droppedRecord p) := by
  unfold visitRecords
  rw [hread]

theorem followReferences_log {refs : List Reference} {search : Search} :
    Ends (followReferences l current refs search) ⟨t, log⟩
      (fun _ s => s = ⟨t, log ++ (droppedReferences t l current refs).map (droppedRecord current)⟩)
      fun _ _ => ¬ Resolvable t l current refs := by
  induction refs generalizing search log with
  | nil => exact ends_pure.2 (by simp [droppedReferences])
  | cons ref rest ih =>
      have hrest : ¬ Resolvable t l current rest → ¬ Resolvable t l current (ref :: rest) :=
        fun hnot hall => hnot fun r hr => hall r (List.mem_cons_of_mem _ hr)
      unfold followReferences
      simp only [ends_bind, Action.ends_files, Action.ends_orRaise]
      cases htarget : resolveReference t l current ref.target with
      | error cause =>
          intro hall
          obtain ⟨target, hresolved⟩ := hall ref (List.mem_cons_self ..)
          rw [htarget] at hresolved
          cases hresolved
      | ok target =>
          cases target with
          | none =>
              have hdropped : droppedReferences t l current (ref :: rest) =
                  ref :: droppedReferences t l current rest := by
                simp [droppedReferences, htarget]
              simp only [ends_bind, Action.ends_debug]
              refine ih.mono (fun _ s h => ?_) fun _ _ => hrest
              rw [h, hdropped, List.map_cons, List.append_assoc, List.singleton_append]
              rfl
          | some q =>
              have hdropped : droppedReferences t l current (ref :: rest) =
                  droppedReferences t l current rest := by
                simp [droppedReferences, htarget]
              rw [hdropped]
              exact ih.mono (fun _ _ h => h) fun _ _ => hrest

/-- A step reports of the file that it looks at, unless that was seen. -/
theorem searchStep_log {search : Search} {next : Path} {pending : List Path}
    (hnext : next.resolved = .ok current) :
    Ends (searchStep l search next pending) ⟨t, log⟩
      (fun _ s => s = ⟨t, log ++ if current ∈ search.seen then [] else visitRecords t l current⟩)
      fun _ _ => current ∈ search.seen ∨ ¬ ∀ text, t.readText current = .ok text →
        Resolvable t l current (references text) := by
  have hcanonical : current.IsCanonical := Path.isCanonical_of_resolved hnext
  unfold searchStep
  simp only [ends_bind, Action.ends_orRaise, hnext, Except.mapError]
  split
  · exact ends_pure.2 (by simp)
  · simp only [ends_bind, Action.ends_files]
    split
    · rename_i cause hread
      rw [if_pos (FileTree.isReadFault_of_readText hcanonical hread)]
      simp only [ends_bind, Action.ends_debug, ends_pure]
      rw [visitRecords_of_error hread]
    · rename_i text hread
      rw [visitRecords_of_read hread]
      exact followReferences_log.mono (fun _ _ h => h) fun _ _ hnot =>
        .inr fun hall => hnot (hall text hread)

/-! ## A whole search -/

/-- What a search has looked at between two states: files that it had not seen, of which it
visited those that can be read. -/
structure LooksAt (t : FileTree) (search search' : Search) (looked : List Path) : Prop where
  nodup : looked.Nodup
  fresh : ∀ p ∈ looked, p ∉ search.seen
  mem_visited : ∀ p, p ∈ search'.found.visited ↔
    p ∈ search.found.visited ∨ p ∈ looked ∧ t.Readable p

namespace LooksAt

variable {search search' search'' : Search} {looked : List Path}

theorem nil (search : Search) : LooksAt t search search [] where
  nodup := .nil
  fresh := by simp
  mem_visited := by simp

/-- One file more, looked at first. -/
theorem cons (h : LooksAt t search' search'' looked) (hfresh : current ∉ search.seen)
    (hseen : search'.seen = current :: search.seen)
    (hvisited : ∀ p, p ∈ search'.found.visited ↔
      p ∈ search.found.visited ∨ p = current ∧ t.Readable p) :
    LooksAt t search search'' (current :: looked) := by
  have hothers : ∀ p ∈ looked, p ≠ current ∧ p ∉ search.seen := by
    intro p hp
    simpa [hseen] using h.fresh p hp
  refine ⟨List.nodup_cons.2 ⟨fun hmem => (hothers _ hmem).1 rfl, h.nodup⟩, ?_, fun p => ?_⟩
  · exact List.forall_mem_cons.2 ⟨hfresh, fun p hp => (hothers p hp).2⟩
  · rw [h.mem_visited, hvisited, List.mem_cons, or_and_right, or_assoc]

end LooksAt

/-- The reports of a run are those of the files that it looks at, in this order. -/
theorem runSearch_log {fuel : Nat} {search : Search} :
    Ends (runSearch l fuel search) ⟨t, log⟩
      (fun search' s => ∃ looked, LooksAt t search search' looked ∧
        s = ⟨t, log ++ looked.flatMap (visitRecords t l)⟩)
      fun _ _ => True := by
  induction fuel generalizing search log with
  | zero => exact ends_pure.2 ⟨[], .nil search, by simp⟩
  | succ fuel ih =>
      unfold runSearch
      split
      · exact ends_pure.2 ⟨[], .nil search, by simp⟩
      · rename_i next pending hpending
        rw [ends_bind]
        cases hnext : next.resolved with
        | error fault =>
            unfold searchStep
            simp only [ends_bind, Action.ends_orRaise, hnext, Except.mapError]
        | ok current =>
            refine ((searchStep_spec hnext).and (searchStep_log hnext)).mono
              (fun search' s h => ?_) fun _ _ _ => trivial
            obtain ⟨⟨-, hstep⟩, rfl⟩ := h
            refine ih.mono (fun search'' s h => ?_) fun _ _ => id
            obtain ⟨looked, hlooked, rfl⟩ := h
            cases hstep with
            | known hseen =>
                refine ⟨looked, ⟨hlooked.nodup, hlooked.fresh, hlooked.mem_visited⟩, ?_⟩
                rw [if_pos hseen, List.append_nil]
            -- From here on `current` is seen, so it is not among the files of the rest.
            | unreadable hseen hread =>
                refine ⟨current :: looked, hlooked.cons hseen rfl fun p => ?_, ?_⟩
                · refine (or_iff_left ?_).symm
                  rintro ⟨rfl, hreadable⟩
                  exact hread hreadable
                · rw [if_neg hseen, List.flatMap_cons, List.append_assoc]
            | followed hseen hread =>
                refine ⟨current :: looked, hlooked.cons hseen rfl fun p => ?_, ?_⟩
                · rw [Dependencies.visited_record, List.mem_append, List.mem_singleton]
                  refine or_congr_right (and_iff_left_of_imp ?_).symm
                  rintro rfl
                  exact ⟨_, hread⟩
                · rw [if_neg hseen, List.flatMap_cons, List.append_assoc]

/-- **The reports of a search**, if it comes to an end, are those of the files that it looked
at, each once; it visited those that can be read. -/
theorem ends_scan {entry : Path} :
    Ends (scan l entry) ⟨t, log⟩
      (fun d s => ∃ looked : List Path, looked.Nodup ∧
        (∀ p, p ∈ d.visited ↔ p ∈ looked ∧ t.Readable p) ∧
        s = ⟨t, log ++ looked.flatMap (visitRecords t l)⟩)
      fun _ _ => True := by
  unfold scan
  simp only [ends_bind, Action.ends_files, ends_pure]
  refine runSearch_log.mono (fun search s h => ?_) fun _ _ => id
  obtain ⟨looked, hlooked, rfl⟩ := h
  exact ⟨looked, hlooked.nodup, fun p => by simpa [Dependencies.empty] using hlooked.mem_visited p,
    rfl⟩

end Folio
