import Folio.Proofs.FileTree.WellFormed

/-!
# Following a path in two trees

Following a path looks at the places on the way and at nothing else, so two trees that
agree there give the same answer (`locate_congr`, `stat_congr_along`).

Trees that differ on the way may still agree on what a path leads to, since a path that
leads nowhere does so for many reasons.  Only a name that is too long is told apart,
and only in a directory: `locate_tooLong_of` carries that fault from a tree to one that
has the same directories on the way.
-/

namespace Folio

namespace FileTree

variable {t t' : FileTree} {p : Path} {names : Place}

/-! ## The same way -/

theorem walk_congr {start : Place} (hup : ".." ∉ names)
    (hsame : ∀ init, init <+: names → init ≠ names →
      t.entry? (start ++ init) = t'.entry? (start ++ init)) :
    t.walk start names = t'.walk start names := by
  induction names generalizing start with
  | nil => rfl
  | cons name rest ih =>
      have hname : name ≠ ".." := fun h => hup (by simp [h])
      have hstart : t.entry? start = t'.entry? start := by
        simpa using hsame [] List.nil_prefix (by simp)
      have hrest : t.walk (start ++ [name]) rest = t'.walk (start ++ [name]) rest := by
        refine ih (fun h => hup (List.mem_cons_of_mem _ h)) fun init hinit hne => ?_
        have hbelow := hsame (name :: init) (List.cons_prefix_cons.2 ⟨rfl, hinit⟩)
          fun h => hne (List.cons_injective h)
        simpa using hbelow
      unfold walk
      rw [hstart, if_neg hname, if_neg hname, hrest]

theorem locate_of_walk (hwalk : t.walk [] p.parts = t'.walk [] p.parts) :
    t.locate p = t'.locate p := by
  unfold locate
  rw [hwalk]

/-- A path that leads down, and perhaps up again at its end, in trees that agree on the
way. -/
theorem walk_congr_down (hp : LeadsDown p names)
    (hsame : ∀ q, q <+: names → t.entry? q = t'.entry? q) :
    t.walk [] p.parts = t'.walk [] p.parts := by
  have hdown : t.walk [] names = t'.walk [] names :=
    walk_congr hp.not_mem fun init hinit _ => hsame init hinit
  rcases hp.parts_eq with hparts | hparts
  · rw [hparts, hdown]
  · rw [hparts, walk_append, walk_append, hdown]
    cases hwalk : t'.walk [] names with
    | error fault => rfl
    | ok place =>
        obtain rfl : place = names := by simpa using walk_eq_of_not_mem hwalk hp.not_mem
        dsimp only
        unfold walk
        rw [hsame place List.prefix_rfl]
        simp [walk]

theorem locate_congr (hp : LeadsDown p names)
    (hsame : ∀ q, q <+: names → t.entry? q = t'.entry? q) : t.locate p = t'.locate p :=
  locate_of_walk (walk_congr_down hp hsame)

theorem isPrefix_of_walk (hp : LeadsDown p names) {place : Place}
    (hwalk : t.walk [] p.parts = .ok place) : place <+: names := by
  rcases hp.parts_eq with hparts | hparts
  · rw [hparts] at hwalk
    rw [walk_eq_of_not_mem hwalk hp.not_mem, List.nil_append]
  · rw [hparts, walk_append] at hwalk
    cases hbelow : t.walk [] names with
    | error fault => rw [hbelow] at hwalk; cases hwalk
    | ok below =>
        rw [hbelow] at hwalk
        obtain rfl : below = names := by simpa using walk_eq_of_not_mem hbelow hp.not_mem
        have hdirectory := entry?_of_walk_cons hwalk
        dsimp only at hwalk
        unfold walk at hwalk
        rw [hdirectory] at hwalk
        cases hwalk
        exact List.dropLast_prefix below

theorem isPrefix_of_locate (hp : LeadsDown p names) {place : Place}
    (hlocate : t.locate p = .ok place) : place <+: names :=
  isPrefix_of_walk hp (walk_of_locate hlocate).1

theorem stat_congr_along (hp : LeadsDown p names)
    (hsame : ∀ q, q <+: names → t.entry? q = t'.entry? q) : t.stat p = t'.stat p := by
  unfold stat
  rw [locate_congr hp hsame]
  cases hlocate : t'.locate p with
  | error fault => rfl
  | ok place =>
      have hentry := hsame place (isPrefix_of_locate hp hlocate)
      simp only [bind, Except.bind, hentry]

theorem probe_congr (hstat : t.stat p = t'.stat p) : t.probe p = t'.probe p := by
  unfold probe
  rw [hstat]

/-- A path whose directory leads down, in trees that agree on the way to it. -/
theorem locate_congr_of_parent (hp : LeadsDown p.parent names)
    (hsame : ∀ q, q <+: names → t.entry? q = t'.entry? q) : t.locate p = t'.locate p := by
  rcases List.eq_nil_or_concat p.parts with hnil | ⟨front, last, hparts⟩
  · exact locate_of_walk (by rw [hnil]; rfl)
  · rw [List.concat_eq_append] at hparts
    have hparent : p.parent.parts = front := by rw [Path.parent, hparts, List.dropLast_concat]
    have hfront := walk_congr_down hp hsame
    refine locate_of_walk ?_
    rw [hparts, walk_append, walk_append, ← hparent, hfront]
    cases hwalk : t'.walk [] p.parent.parts with
    | error fault => rfl
    | ok place =>
        dsimp only
        unfold walk
        rw [hsame place (isPrefix_of_walk hp hwalk)]
        simp only [walk]

/-- Where a path leads that does not go up at its end, what is above is a directory. -/
theorem exists_parent_of_locate {place : Place} {front : List String} {last : String}
    (hparts : p.parts = front ++ [last]) (hlast : last ≠ "..") (hlocate : t.locate p = .ok place) :
    ∃ above, place = above ++ [last] ∧ t.entry? above = some .directory := by
  have hwalk := (walk_of_locate hlocate).1
  rw [hparts, walk_append] at hwalk
  cases hfront : t.walk [] front with
  | error fault => rw [hfront] at hwalk; cases hwalk
  | ok above =>
      rw [hfront] at hwalk
      have hdirectory := entry?_of_walk_cons hwalk
      dsimp only at hwalk
      unfold walk at hwalk
      rw [hdirectory, if_neg hlast] at hwalk
      dsimp only at hwalk
      split at hwalk
      · cases hwalk
      · cases hwalk
        exact ⟨above, rfl, hdirectory⟩

/-! ## What a path leads to -/

/-- In a tree that holds together, a path from the root leads to what stands there,
unless a name on the way is too long. -/
theorem WellFormed.probe_eq (ht : t.WellFormed) (hp : p.IsCanonical) :
    t.probe p = .ok (t.entry? p.parts) ∨ t.probe p = .error .nameTooLong := by
  unfold probe
  cases hstat : t.stat p with
  | ok entry => exact .inl (by rw [stat_eq_ok hp hstat])
  | error fault =>
      cases hentry : t.entry? p.parts with
      | none => cases fault <;> simp
      | some entry =>
          have hthere : t.entry? p.parts ≠ none := by rw [hentry]; simp
          have habove := ht.directoriesAbove hthere
          rcases stat_of_directories hp habove hentry with h | h
          · rw [hstat] at h
            cases h
          · rw [hstat] at h
            cases h
            exact .inr rfl

theorem isFile_ne_false (ht : t.WellFormed) (hp : p.IsCanonical)
    (hfile : t.IsFile p.parts) : t.isFile p ≠ .ok false := by
  obtain ⟨content, hcontent⟩ := hfile
  unfold isFile
  rcases ht.probe_eq hp with hprobe | hprobe
  · rw [hprobe, hcontent]
    simp [Except.map]
  · rw [hprobe]
    simp [Except.map]

theorem probe_eq_tooLong_iff :
    t.probe p = .error .nameTooLong ↔ t.locate p = .error .nameTooLong := by
  unfold probe stat
  cases hlocate : t.locate p with
  | error fault => cases fault <;> simp [bind, Except.bind]
  | ok place =>
      cases hentry : t.entry? place <;>
        simp [bind, Except.bind, hentry, throw, throwThe, MonadExceptOf.throw, pure, Except.pure]

theorem walk_tooLong_of {start : Place} (hup : ".." ∉ names)
    (hdirectories : ∀ init, init <+: names → init ≠ names →
      t.entry? (start ++ init) = some .directory → t'.entry? (start ++ init) = some .directory)
    (hwalk : t.walk start names = .error .nameTooLong) :
    t'.walk start names = .error .nameTooLong := by
  induction names generalizing start with
  | nil => cases hwalk
  | cons name rest ih =>
      have hname : name ≠ ".." := fun h => hup (by simp [h])
      unfold walk at hwalk
      split at hwalk
      · cases hwalk
      · cases hwalk
      · rename_i hdirectory
        have hdirectory' : t'.entry? start = some .directory := by
          simpa using hdirectories [] List.nil_prefix (by simp) (by simpa using hdirectory)
        unfold walk
        rw [if_neg hname] at hwalk
        rw [hdirectory']
        dsimp only
        rw [if_neg hname]
        split at hwalk
        · rename_i hlong
          rw [if_pos hlong]
        · rename_i hlong
          rw [if_neg hlong]
          refine ih (fun h => hup (List.mem_cons_of_mem _ h))
            (fun init hinit hne hinner => ?_) hwalk
          have hbelow := hdirectories (name :: init) (List.cons_prefix_cons.2 ⟨rfl, hinit⟩)
            fun h => hne (List.cons_injective h)
          simpa using hbelow (by simpa using hinner)

/-- A name that is too long is met in every tree that has the directories above it. -/
theorem locate_tooLong_of (hup : ".." ∉ p.parts)
    (hdirectories : ∀ q, q <+: p.parts → q ≠ p.parts →
      t.entry? q = some .directory → t'.entry? q = some .directory)
    (hlocate : t.locate p = .error .nameTooLong) : t'.locate p = .error .nameTooLong := by
  unfold locate at hlocate ⊢
  split at hlocate
  · cases hlocate
  · rename_i husable
    rw [if_neg husable]
    split at hlocate
    · rename_i hlong
      rw [if_pos hlong]
    · rename_i hlong
      rw [if_neg hlong]
      exact walk_tooLong_of hup (fun init hinit hne => hdirectories init hinit hne) hlocate

/-- A path of which no name is too long, and which is itself not too long. -/
theorem locate_ne_tooLong (hp : isTooLong p = false) : t.locate p ≠ .error .nameTooLong := by
  have hwalk : ∀ (names : List String) (start : Place),
      (∀ name ∈ names, ¬ maxNameBytes < name.utf8ByteSize) →
        t.walk start names ≠ .error .nameTooLong := by
    intro names
    induction names with
    | nil => exact fun _ _ h => nomatch h
    | cons name rest ih =>
        intro start hshort h
        unfold walk at h
        split at h
        · cases h
        · cases h
        · rw [if_neg (hshort name (List.mem_cons_self ..))] at h
          split at h
          · exact ih _ (fun n hn => hshort n (List.mem_cons_of_mem _ hn)) h
          · exact ih _ (fun n hn => hshort n (List.mem_cons_of_mem _ hn)) h
  simp only [isTooLong, Bool.or_eq_false_iff, decide_eq_false_iff_not, List.any_eq_false,
    decide_eq_true_eq] at hp
  unfold locate
  split
  · simp
  · rw [if_neg hp.1]
    exact hwalk p.parts [] hp.2

end FileTree

end Folio
