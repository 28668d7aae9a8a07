import Folio.Proofs.FileTree.Following

/-!
# Changing two trees at once

The edits of a build keep a tree well-formed, and in two trees that agree where they
look they fail alike or change the same place.  For directories that are made with all
above them, `makeLevels_together` carries any relation through that the single edits
keep.

When the trees do not agree, making directories still succeeds in both if it does in
one and neither has a file in the way (`makeDirectories_eq_none_iff`).
-/

namespace Folio

namespace FileTree

variable {t t' : FileTree} {place q : Place} {p : Path} {names : Place}

/-! ## Well-formed trees -/

theorem WellFormed.put (ht : t.WellFormed) {entry : Entry}
    (hnames : ∀ name ∈ place, IsFileName name)
    (habove : t.entry? place.dropLast = some .directory)
    (hleaf : entry = .directory ∨ t.entry? place ≠ some .directory) :
    (t.put place entry).WellFormed := by
  refine ⟨named_put ht.named hnames, nodup_put ht.nodup, fun q name hthere => ?_⟩
  have hne : q ++ [name] ≠ [] := by simp
  rw [entry?_put, if_neg hne] at hthere
  have hcases : t.entry? q = some .directory := by
    split at hthere
    · rename_i hplace
      rw [← hplace, List.dropLast_concat] at habove
      exact habove
    · exact ht.above q name hthere
  by_cases hq : q = place
  · rw [entry?_put, if_pos hq]
    rcases hleaf with rfl | hleaf
    · split <;> rfl
    · exact absurd (hq ▸ hcases) hleaf
  · rw [entry?_put_of_ne hq, hcases]

theorem WellFormed.prune (ht : t.WellFormed) : (t.prune place).WellFormed := by
  refine ⟨named_prune ht.named, nodup_prune ht.nodup, fun q name hthere => ?_⟩
  by_cases hbelow : place <+: q ++ [name]
  · rw [entry?_prune, if_neg (by simp), if_pos hbelow] at hthere
    exact absurd rfl hthere
  · rw [entry?_prune_of_not_isPrefix hbelow] at hthere
    rw [entry?_prune_of_not_isPrefix fun h => hbelow (h.trans (List.prefix_append _ _))]
    exact ht.above q name hthere

/-! ## Making directories -/

theorem isDirectory_congr (hstat : t.stat p = t'.stat p) : t.isDirectory p = t'.isDirectory p := by
  unfold isDirectory
  rw [probe_congr hstat]

theorem makeDirectory_of_locate {here : Place} (hlocate : t.locate p = .ok here) :
    t.makeDirectory p =
      if t.entry? here = none then .ok (t.put here .directory) else .error .alreadyExists := by
  unfold makeDirectory
  rw [hlocate]
  cases hentry : t.entry? here <;>
    simp [bind, Except.bind, hentry, throw, throwThe, MonadExceptOf.throw, pure, Except.pure]

theorem makeDirectory_of_error {fault : FileFault} (hlocate : t.locate p = .error fault) :
    t.makeDirectory p = .error fault := by
  unfold makeDirectory
  rw [hlocate]
  rfl

/-- What is above a directory that is made is a directory. -/
theorem directory_above_of_locate (hp : LeadsDown p names) (hlocate : t.locate p = .ok place)
    (hnone : t.entry? place = none) : t.entry? place.dropLast = some .directory := by
  rcases hp.parts_eq with hparts | hparts
  · obtain rfl : place = p.parts := locate_eq (hparts ▸ hp.not_mem) hlocate
    have hne : p.parts ≠ [] := fun h => by
      rw [h] at hnone
      cases hnone
    exact entry?_parent_of_locate (hparts ▸ hp.not_mem) hne hlocate
  · have hthere := (entry?_of_locate_up hp.not_mem hparts hlocate).2
    rw [hnone] at hthere
    cases hthere

section

variable {R : FileTree → FileTree → Prop}

/-- A directory is made, or is there, or neither, in both trees. -/
theorem ensureDirectory_together
    (hsame : ∀ {t t'}, R t t' → ∀ q, q <+: names → t.entry? q = t'.entry? q)
    (hput : ∀ {t t'} q, R t t' → q <+: names → t.entry? q = none →
      t.entry? q.dropLast = some .directory → R (t.put q .directory) (t'.put q .directory))
    (hp : LeadsDown p names) (h : R t t') :
    (∃ u u', t.ensureDirectory p = .ok u ∧ t'.ensureDirectory p = .ok u' ∧ R u u') ∨
      ∃ fault, t.ensureDirectory p = .error fault ∧ t'.ensureDirectory p = .error fault := by
  have hway := hsame h
  have hlocate := locate_congr hp hway
  have hdirectory := isDirectory_congr (stat_congr_along hp hway)
  have hthere : ∀ fault, t.makeDirectory p = .error fault → t'.makeDirectory p = .error fault →
      (∃ u u', t.ensureDirectory p = .ok u ∧ t'.ensureDirectory p = .ok u' ∧ R u u') ∨
        ∃ fault, t.ensureDirectory p = .error fault ∧ t'.ensureDirectory p = .error fault := by
    intro fault hmake hmake'
    unfold ensureDirectory
    rw [hmake, hmake', ← hdirectory]
    dsimp only
    split
    · exact .inl ⟨t, t', rfl, rfl, h⟩
    · exact .inr ⟨fault, rfl, rfl⟩
  cases hplace : t.locate p with
  | error fault =>
      exact hthere fault (makeDirectory_of_error hplace)
        (makeDirectory_of_error (hlocate.symm.trans hplace))
  | ok here =>
      have hstarts := isPrefix_of_locate hp hplace
      have hmake := makeDirectory_of_locate hplace
      have hmake' := makeDirectory_of_locate (hlocate.symm.trans hplace)
      rw [← hway here hstarts] at hmake'
      by_cases hnone : t.entry? here = none
      · rw [if_pos hnone] at hmake hmake'
        refine .inl ⟨_, _, ?_, ?_,
          hput here h hstarts hnone (directory_above_of_locate hp hplace hnone)⟩
        · unfold ensureDirectory
          rw [hmake]
        · unfold ensureDirectory
          rw [hmake']
      · rw [if_neg hnone] at hmake hmake'
        exact hthere _ hmake hmake'

/-- What single directories keep is kept by a directory and those above it. -/
theorem makeLevels_together
    (hsame : ∀ {t t'}, R t t' → ∀ q, q <+: names → t.entry? q = t'.entry? q)
    (hput : ∀ {t t'} q, R t t' → q <+: names → t.entry? q = none →
      t.entry? q.dropLast = some .directory → R (t.put q .directory) (t'.put q .directory))
    (hp : LeadsDown p names) (count : Nat) (h : R t t') :
    (t.makeLevels count p).2 = (t'.makeLevels count p).2 ∧
      R (t.makeLevels count p).1 (t'.makeLevels count p).1 := by
  induction count generalizing t t' p names with
  | zero =>
      unfold makeLevels
      rcases ensureDirectory_together hsame hput hp h with
        ⟨u, u', hmake, hmake', hu⟩ | ⟨fault, hmake, hmake'⟩
      · rw [hmake, hmake']
        exact ⟨rfl, hu⟩
      · rw [hmake, hmake']
        exact ⟨rfl, h⟩
  | succ count ih =>
      obtain ⟨above, habove, hstarts⟩ := hp.parent
      have hlevels := ih (fun h q hq => hsame h q (hq.trans hstarts))
        (fun q h hq => hput q h (hq.trans hstarts)) habove h
      unfold makeLevels
      rcases ensureDirectory_together hsame hput hp h with
        ⟨u, u', hmake, hmake', hu⟩ | ⟨fault, hmake, hmake'⟩
      · rw [hmake, hmake']
        exact ⟨rfl, hu⟩
      · rw [hmake, hmake']
        cases fault with
        | missing =>
            dsimp only
            rcases hmade : t.makeLevels count p.parent with ⟨u, _ | fault⟩ <;>
              rcases hmade' : t'.makeLevels count p.parent with ⟨u', _ | fault'⟩ <;>
              rw [hmade, hmade'] at hlevels <;> obtain ⟨hfault, hu⟩ := hlevels
            · dsimp only
              rcases ensureDirectory_together hsame hput hp hu with
                ⟨v, v', hlast, hlast', hv⟩ | ⟨fault, hlast, hlast'⟩
              · rw [hlast, hlast']
                exact ⟨rfl, hv⟩
              · rw [hlast, hlast']
                exact ⟨rfl, hu⟩
            · cases hfault
            · cases hfault
            · exact ⟨hfault, hu⟩
        | _ => exact ⟨rfl, h⟩

theorem makeDirectories_together
    (hsame : ∀ {t t'}, R t t' → ∀ q, q <+: names → t.entry? q = t'.entry? q)
    (hput : ∀ {t t'} q, R t t' → q <+: names → t.entry? q = none →
      t.entry? q.dropLast = some .directory → R (t.put q .directory) (t'.put q .directory))
    (hp : LeadsDown p names) (h : R t t') :
    (t.makeDirectories p).2 = (t'.makeDirectories p).2 ∧
      R (t.makeDirectories p).1 (t'.makeDirectories p).1 :=
  makeLevels_together hsame hput hp _ h

end

theorem WellFormed.makeLevels (ht : t.WellFormed) (hp : LeadsDown p names)
    (hnames : ∀ name ∈ names, IsFileName name) (count : Nat) :
    (t.makeLevels count p).1.WellFormed := by
  let R : FileTree → FileTree → Prop := fun t t' => t = t' ∧ t.WellFormed
  have hput : ∀ {t t'} q, R t t' → q <+: names → t.entry? q = none →
      t.entry? q.dropLast = some .directory → R (t.put q .directory) (t'.put q .directory) := by
    rintro t _ q ⟨rfl, ht⟩ hq - habove
    exact ⟨rfl, ht.put (fun name hname => hnames name (hq.subset hname)) habove (.inl rfl)⟩
  have hsame : ∀ {t t'}, R t t' → ∀ q, q <+: names → t.entry? q = t'.entry? q := by
    rintro t _ ⟨rfl, -⟩ q -
    rfl
  exact (makeLevels_together (R := R) hsame hput hp count ⟨rfl, ht⟩).2.2

/-! ## Paths beside each other -/

/-- The text of a path ends in its last name. -/
theorem exists_toString_concat (front : List String) :
    ∃ lead : String, ∀ last, Path.toString ⟨.root, front ++ [last]⟩ = lead ++ last := by
  refine ⟨"/" ++ String.ofList ((front.map String.toList).flatMap fun piece => piece ++ ['/']),
    fun last => ?_⟩
  have htext : Path.toString ⟨.root, front ++ [last]⟩ = "/" ++ "/".intercalate (front ++ [last]) :=
    rfl
  rw [htext, String.append_assoc]
  congr 1
  rw [← String.toList_inj, toList_intercalate_slash, List.map_append, List.map_singleton,
    joinWith_concat, String.toList_append, String.toList_ofList]

theorem isTooLong_sibling {front : List String} {last other : String}
    (hsize : last.utf8ByteSize = other.utf8ByteSize) :
    isTooLong ⟨.root, front ++ [last]⟩ = isTooLong ⟨.root, front ++ [other]⟩ := by
  obtain ⟨lead, hlead⟩ := exists_toString_concat front
  unfold isTooLong
  rw [hlead, hlead, String.utf8ByteSize_append, String.utf8ByteSize_append, hsize]
  simp [hsize]

theorem locate_tooLong_sibling {front : List String} {last other : String}
    (hp : Path.IsCanonical ⟨.root, front ++ [last]⟩)
    (hq : Path.IsCanonical ⟨.root, front ++ [other]⟩)
    (hsize : last.utf8ByteSize = other.utf8ByteSize) :
    t.locate ⟨.root, front ++ [last]⟩ = .error .nameTooLong →
      t.locate ⟨.root, front ++ [other]⟩ = .error .nameTooLong := by
  obtain ⟨lead, hlead⟩ := exists_toString_concat front
  have hup : last ≠ ".." := fun h => hp.not_mem (by simp [h])
  have hup' : other ≠ ".." := fun h => hq.not_mem (by simp [h])
  have husable : (front ++ [last]).all Path.isUsable = true := List.all_eq_true.2 hp.usable
  have husable' : (front ++ [other]).all Path.isUsable = true := List.all_eq_true.2 hq.usable
  intro hlocate
  unfold locate at hlocate ⊢
  rw [husable, if_neg (by simp), hlead, String.utf8ByteSize_append, walk_append] at hlocate
  rw [husable', if_neg (by simp), hlead, String.utf8ByteSize_append, walk_append, ← hsize]
  split
  · rfl
  · rename_i hlong
    rw [if_neg hlong] at hlocate
    cases hwalk : t.walk [] front with
    | error fault =>
        rw [hwalk] at hlocate
        exact hlocate
    | ok place =>
        rw [hwalk] at hlocate
        dsimp only at hlocate ⊢
        unfold walk at hlocate ⊢
        rw [if_neg hup']
        rw [if_neg hup, hsize] at hlocate
        split at hlocate
        · cases hlocate
        · cases hlocate
        · split at hlocate
          · rename_i hname
            rw [if_pos hname]
          · cases hlocate

/-! ## When directories can be made -/

/-- The way to a directory, when it is all there. -/
theorem ensureDirectory_of_directories (hp : p.IsCanonical) (hshort : isTooLong p = false)
    (habove : t.DirectoriesAbove p.parts) (hfile : ¬ t.IsFile p.parts) :
    ∃ u, t.ensureDirectory p = .ok u := by
  have hlocate := locate_of_directories hp habove
  rw [hshort, if_neg (by simp)] at hlocate
  have hmake := makeDirectory_of_locate hlocate
  unfold ensureDirectory
  by_cases hnone : t.entry? p.parts = none
  · rw [hmake, if_pos hnone]
    exact ⟨_, rfl⟩
  · rw [hmake, if_neg hnone]
    obtain ⟨entry, hentry⟩ := Option.ne_none_iff_exists'.1 hnone
    cases entry with
    | file content => exact absurd ⟨content, hentry⟩ hfile
    | directory =>
        have hstat : t.stat p = .ok .directory := by
          unfold stat
          rw [hlocate]
          simp only [bind, Except.bind, hentry]
          rfl
        have hdirectory : t.isDirectory p = .ok true := by
          unfold isDirectory probe
          rw [hstat]
          rfl
        rw [hdirectory]
        exact ⟨t, rfl⟩

theorem exists_intercalate_concat (front : List String) (last : String) :
    ∃ rest, "/".intercalate (front ++ [last]) = "/".intercalate front ++ rest := by
  rcases List.eq_nil_or_concat front with rfl | ⟨init, name, rfl⟩
  · exact ⟨last, by simp⟩
  · refine ⟨"/" ++ last, ?_⟩
    rw [List.concat_eq_append, ← String.toList_inj, String.toList_append,
      toList_intercalate_slash, toList_intercalate_slash, List.map_append,
      List.map_append, List.map_singleton, List.map_singleton, joinWith_concat,
      joinWith_concat]
    simp

/-- The text of a path begins with the text of the path above. -/
theorem exists_toString_eq_append {front : List String} {last : String}
    (hanchor : p.anchor = .root) (hparts : p.parts = front ++ [last]) :
    ∃ rest, p.toString = Path.toString ⟨p.anchor, front⟩ ++ rest := by
  have hroot : ∀ parts, Path.toString ⟨.root, parts⟩ = "/" ++ "/".intercalate parts := fun _ => rfl
  obtain ⟨rest, hrest⟩ := exists_intercalate_concat front last
  refine ⟨rest, ?_⟩
  obtain ⟨anchor, parts⟩ := p
  obtain rfl : anchor = .root := hanchor
  obtain rfl : parts = front ++ [last] := hparts
  rw [hroot, hroot, hrest, String.append_assoc]

theorem isTooLong_parent (hp : p.IsCanonical) (hshort : isTooLong p = false) :
    isTooLong p.parent = false := by
  rcases List.eq_nil_or_concat p.parts with hnil | ⟨front, last, hparts⟩
  · have hparent : p.parent = p := by
      rw [Path.parent, hnil]
      cases p
      simp_all
    rwa [hparent]
  · rw [List.concat_eq_append] at hparts
    have hparent : p.parent = ⟨p.anchor, front⟩ := by
      rw [Path.parent, hparts, List.dropLast_concat]
    have hsize : p.parent.toString.utf8ByteSize ≤ p.toString.utf8ByteSize := by
      obtain ⟨rest, hrest⟩ := exists_toString_eq_append hp.anchor_eq hparts
      rw [hparent, hrest, String.utf8ByteSize_append]
      omega
    simp only [isTooLong, Bool.or_eq_false_iff, decide_eq_false_iff_not, List.any_eq_false,
      decide_eq_true_eq] at hshort ⊢
    refine ⟨by omega, fun name hname => hshort.2 name ?_⟩
    rw [hparent] at hname
    rw [hparts]
    exact List.mem_append_left _ hname

theorem directoriesAbove_of_locate (ht : t.WellFormed) (hp : p.IsCanonical)
    (hlocate : t.locate p = .ok place) : t.DirectoriesAbove p.parts := by
  rcases List.eq_nil_or_concat p.parts with hnil | ⟨front, last, hparts⟩
  · intro q hq hne
    rw [hnil] at hq hne
    exact absurd (List.prefix_nil.mp hq) hne
  · rw [List.concat_eq_append] at hparts
    have habove := entry?_parent_of_locate hp.not_mem (by simp [hparts]) hlocate
    rw [hparts, List.dropLast_concat] at habove
    intro q hq hne
    rw [hparts] at hq hne
    rcases List.prefix_concat_iff.mp hq with hq | hq
    · exact absurd hq hne
    · by_cases hfront : q = front
      · rw [hfront, habove]
      · exact ht.directoriesAbove (by rw [habove]; simp) q hq hfront

theorem isTooLong_of_locate (hp : p.IsCanonical) (hlocate : t.locate p = .ok place) :
    isTooLong p = false := by
  have hwalk : ∀ (names : List String) (start : Place), ".." ∉ names →
      t.walk start names = .ok place → ∀ name ∈ names, ¬ maxNameBytes < name.utf8ByteSize := by
    intro names
    induction names with
    | nil => simp
    | cons name rest ih =>
        intro start hup hwalk
        have hname : name ≠ ".." := fun h => hup (by simp [h])
        unfold walk at hwalk
        split at hwalk
        · cases hwalk
        · cases hwalk
        · rw [if_neg hname] at hwalk
          split at hwalk
          · cases hwalk
          · rename_i hshort
            exact List.forall_mem_cons.2
              ⟨hshort, ih _ (fun h => hup (List.mem_cons_of_mem _ h)) hwalk⟩
  simp only [isTooLong, Bool.or_eq_false_iff, decide_eq_false_iff_not, List.any_eq_false,
    decide_eq_true_eq]
  refine ⟨fun hlong => ?_, hwalk p.parts [] hp.not_mem (walk_of_locate hlocate).1⟩
  unfold locate at hlocate
  rw [if_pos hlong] at hlocate
  split at hlocate <;> cases hlocate

/-- There is a way to each place beside one that is there, if its name is no longer. -/
theorem WellFormed.locate_sibling (ht : t.WellFormed) {front : List String} {last other : String}
    (hthere : t.entry? (front ++ [last]) ≠ none)
    (hshort : isTooLong ⟨.root, front ++ [last]⟩ = false)
    (hother : Path.IsCanonical ⟨.root, front ++ [other]⟩)
    (hsize : last.utf8ByteSize = other.utf8ByteSize) :
    t.locate ⟨.root, front ++ [other]⟩ = .ok (front ++ [other]) := by
  have habove : t.DirectoriesAbove (front ++ [other]) := (ht.directoriesAbove hthere).sibling
  rw [isTooLong_sibling hsize] at hshort
  rw [locate_of_directories hother habove, hshort, if_neg (by simp)]

/-- Without a file on the way, a path that is not too long is followed to its end or to
a directory that is missing. -/
theorem locate_of_no_files (hp : p.IsCanonical) (hshort : isTooLong p = false)
    (hfiles : ∀ q, q <+: p.parts → ¬ t.IsFile q) :
    t.locate p = .ok p.parts ∨ t.locate p = .error .missing := by
  have hwalk : ∀ (names : List String) (start : Place), ".." ∉ names →
      (∀ name ∈ names, ¬ maxNameBytes < name.utf8ByteSize) →
        (∀ init, init <+: names → ¬ t.IsFile (start ++ init)) →
          t.walk start names = .ok (start ++ names) ∨ t.walk start names = .error .missing := by
    intro names
    induction names with
    | nil => exact fun start _ _ _ => .inl (by simp [walk])
    | cons name rest ih =>
        intro start hup hnames hfiles
        have hname : name ≠ ".." := fun h => hup (by simp [h])
        obtain ⟨hfirst, hrest⟩ := List.forall_mem_cons.1 hnames
        unfold walk
        split
        · exact .inr rfl
        · rename_i content hfile
          exact absurd ⟨content, by simpa using hfile⟩ (hfiles [] List.nil_prefix)
        · rw [if_neg hname, if_neg hfirst]
          have hgo := ih (start ++ [name]) (fun h => hup (List.mem_cons_of_mem _ h)) hrest
            fun init hinit => by
              simpa using hfiles (name :: init) (List.cons_prefix_cons.2 ⟨rfl, hinit⟩)
          simpa using hgo
  have husable : p.parts.all Path.isUsable = true := List.all_eq_true.2 hp.usable
  simp only [isTooLong, Bool.or_eq_false_iff, decide_eq_false_iff_not, List.any_eq_false,
    decide_eq_true_eq] at hshort
  unfold locate
  rw [husable, if_neg (by simp), if_neg hshort.1]
  simpa using hwalk p.parts [] hp.not_mem hshort.2 (by simpa using hfiles)

/-- What is made, or there, is a directory. -/
theorem entry?_of_ensureDirectory (hp : p.IsCanonical) (hmake : t.ensureDirectory p = .ok t') :
    t'.entry? p.parts = some .directory := by
  unfold ensureDirectory at hmake
  split at hmake
  · rename_i made hmade
    cases hmake
    obtain ⟨place, hlocate, hnone, rfl⟩ := makeDirectory_eq_ok hmade
    rw [locate_eq hp.not_mem hlocate, entry?_put]
    simp
  · split at hmake
    · rename_i hdirectory
      cases hmake
      unfold isDirectory probe at hdirectory
      cases hstat : t.stat p with
      | ok entry =>
          rw [hstat] at hdirectory
          cases entry with
          | directory => exact stat_eq_ok hp hstat
          | file content => cases hdirectory
      | error fault =>
          rw [hstat] at hdirectory
          cases fault <;> cases hdirectory
    · cases hmake

theorem isTooLong_of_ensureDirectory (hp : p.IsCanonical)
    (hmake : t.ensureDirectory p = .ok t') : isTooLong p = false := by
  have hlocate : ∃ place, t.locate p = .ok place := by
    cases hlocate : t.locate p with
    | ok place => exact ⟨place, rfl⟩
    | error fault =>
        have hstat : t.stat p = .error fault := by
          unfold stat
          rw [hlocate]
          rfl
        unfold ensureDirectory at hmake
        rw [makeDirectory_of_error hlocate] at hmake
        unfold isDirectory probe at hmake
        rw [hstat] at hmake
        cases fault <;> cases hmake
  obtain ⟨place, hplace⟩ := hlocate
  exact isTooLong_of_locate hp hplace

/-- Levels that have been made end in the directory that was asked for. -/
theorem exists_ensureDirectory_of_makeLevels {count : Nat}
    (hmake : t.makeLevels count p = (t', none)) :
    ∃ u : FileTree, u.ensureDirectory p = .ok t' := by
  cases count with
  | zero =>
      unfold makeLevels at hmake
      split at hmake
      · rename_i hmade
        cases hmake
        exact ⟨t, hmade⟩
      · cases hmake
  | succ count =>
      unfold makeLevels at hmake
      split at hmake
      · rename_i hmade
        cases hmake
        exact ⟨t, hmade⟩
      · split at hmake
        · rename_i u _
          split at hmake
          · rename_i hmade
            cases hmake
            exact ⟨u, hmade⟩
          · cases hmake
        · rename_i hfailed
          exact absurd hmake (hfailed t')
      · cases hmake

theorem WellFormed.makeLevels_eq_none (ht : t.WellFormed) (hp : p.IsPlain)
    (hshort : isTooLong p = false) (hfiles : ∀ q, q <+: p.parts → ¬ t.IsFile q) {count : Nat}
    (hcount : p.parts.length ≤ count) : (t.makeLevels count p).2 = none := by
  induction count generalizing p with
  | zero =>
      have hnil : p.parts = [] := List.eq_nil_of_length_eq_zero (Nat.le_zero.mp hcount)
      obtain ⟨u, hmake⟩ := ensureDirectory_of_directories hp.isCanonical hshort
        (fun q hq hne => absurd (by simpa [hnil] using hq) (hnil ▸ hne)) (hfiles _ List.prefix_rfl)
      unfold FileTree.makeLevels
      rw [hmake]
  | succ count ih =>
      have hfile := hfiles p.parts List.prefix_rfl
      unfold FileTree.makeLevels
      rcases locate_of_no_files hp.isCanonical hshort hfiles with hlocate | hlocate
      · obtain ⟨u, hmake⟩ := ensureDirectory_of_directories hp.isCanonical hshort
          (directoriesAbove_of_locate ht hp.isCanonical hlocate) hfile
        rw [hmake]
      · have hstat : t.stat p = .error .missing := by
          unfold stat
          rw [hlocate]
          rfl
        have hmake : t.ensureDirectory p = .error .missing := by
          unfold ensureDirectory isDirectory probe
          rw [makeDirectory_of_error hlocate, hstat]
          rfl
        have hparent : p.parent.IsPlain :=
          ⟨hp.anchor_eq, fun name hname => hp.names name (List.dropLast_subset _ hname)⟩
        have habove := ih hparent (isTooLong_parent hp.isCanonical hshort)
          (fun q hq => hfiles q (hq.trans (List.dropLast_prefix _)))
          (by rw [Path.parent, List.length_dropLast]; omega)
        have hdown : LeadsDown p.parent p.parent.parts := .of_not_mem hparent.isCanonical.not_mem
        rw [hmake]
        dsimp only
        rcases hlevels : t.makeLevels count p.parent with ⟨u, fault⟩
        rw [hlevels] at habove
        obtain rfl : fault = none := habove
        dsimp only
        have hu : u.WellFormed := by
          have hkept := ht.makeLevels hdown hparent.names count
          rwa [hlevels] at hkept
        have hadds : AddsDirectories p.parent.parts t u := by
          have hadds := makeLevels_adds (t := t) hdown count
          rwa [hlevels] at hadds
        obtain ⟨v, hmade⟩ := exists_ensureDirectory_of_makeLevels hlevels
        have hdirectory := entry?_of_ensureDirectory hparent.isCanonical hmade
        have hway : u.DirectoriesAbove p.parts := by
          intro q hq hne
          have hq : q <+: p.parent.parts := by
            rcases List.eq_nil_or_concat p.parts with hnil | ⟨front, last, hparts⟩
            · exact absurd (by simpa [hnil] using hq) (hnil ▸ hne)
            · rw [List.concat_eq_append] at hparts
              rw [hparts] at hq hne
              rw [Path.parent, hparts, List.dropLast_concat]
              exact (List.prefix_concat_iff.mp hq).resolve_left hne
          by_cases hlast : q = p.parent.parts
          · rw [hlast, hdirectory]
          · exact hu.directoriesAbove (by rw [hdirectory]; simp) q hq hlast
        obtain ⟨w, hlast⟩ := ensureDirectory_of_directories hp.isCanonical hshort hway
          (fun h => hfile (hadds.isFile_iff.1 h))
        rw [hlast]

/-- A directory can be made, with all that are missing above it, if its path is not too
long and no file is in the way. -/
theorem WellFormed.makeDirectories_eq_none_iff (ht : t.WellFormed) (hp : p.IsPlain) :
    (t.makeDirectories p).2 = none ↔
      isTooLong p = false ∧ ∀ q, q <+: p.parts → ¬ t.IsFile q := by
  have hdown : LeadsDown p p.parts := .of_not_mem hp.isCanonical.not_mem
  constructor
  · intro hmake
    rcases hlevels : t.makeDirectories p with ⟨u, fault⟩
    rw [hlevels] at hmake
    obtain rfl : fault = none := hmake
    obtain ⟨v, hmade⟩ := exists_ensureDirectory_of_makeLevels hlevels
    have hdirectory := entry?_of_ensureDirectory hp.isCanonical hmade
    have hu : u.WellFormed := by
      have hkept := ht.makeLevels hdown hp.names p.parts.length
      rwa [← makeDirectories, hlevels] at hkept
    have hadds : AddsDirectories p.parts t u := by
      have hadds := makeDirectories_adds (t := t) hdown
      rwa [hlevels] at hadds
    refine ⟨isTooLong_of_ensureDirectory hp.isCanonical hmade, fun q hq hfile => ?_⟩
    obtain ⟨content, hcontent⟩ := hadds.isFile_iff.2 hfile
    by_cases hlast : q = p.parts
    · rw [hlast, hdirectory] at hcontent
      cases hcontent
    · rw [hu.directoriesAbove (by rw [hdirectory]; simp) q hq hlast] at hcontent
      cases hcontent
  · rintro ⟨hshort, hfiles⟩
    exact ht.makeLevels_eq_none hp hshort hfiles (Nat.le_refl _)

/-- What a tree is after a directory has been made: every place on the way is one. -/
theorem WellFormed.entry?_of_makeDirectories (ht : t.WellFormed) (hp : p.IsPlain)
    (hmake : t.makeDirectories p = (t', none)) :
    t'.WellFormed ∧ ∀ q, t'.entry? q = if q <+: p.parts then some .directory else t.entry? q := by
  have hdown : LeadsDown p p.parts := .of_not_mem hp.isCanonical.not_mem
  obtain ⟨v, hmade⟩ := exists_ensureDirectory_of_makeLevels hmake
  have hdirectory := entry?_of_ensureDirectory hp.isCanonical hmade
  have ht' : t'.WellFormed := by
    have hkept := ht.makeLevels hdown hp.names p.parts.length
    rwa [← makeDirectories, hmake] at hkept
  have hadds : AddsDirectories p.parts t t' := by
    have hadds := makeDirectories_adds (t := t) hdown
    rwa [hmake] at hadds
  refine ⟨ht', fun q => ?_⟩
  by_cases hq : q <+: p.parts
  · rw [if_pos hq]
    by_cases hlast : q = p.parts
    · rw [hlast, hdirectory]
    · exact ht'.directoriesAbove (by rw [hdirectory]; simp) q hq hlast
  · rw [if_neg hq]
    exact (hadds.entry?_eq q).resolve_right fun h => hq h.1

end FileTree

end Folio
