import Folio.Output.Write
import Folio.Proofs.FileTree.Reading
import Mathlib

/-!
# What writing changes

All changes of a tree are made of three edits: a directory where nothing was, a file
where no directory was, and the removal of a place with all below it.  `entry?` of an
edited tree is given by `entry?_put` and `entry?_prune`.

A path that a build writes to goes down from the root, or it goes up once, in its
last name or the one before.  Going up needs a directory to be there, so making the
directories of such a path adds only those on the way down.
-/

namespace Folio

namespace FileTree

variable {t t' : FileTree} {place q : Place}

/-! ## Edits -/

theorem lookup_filter_of_ne {entries : List (Place × Entry)} (hq : q ≠ place) :
    (entries.filter fun e => e.1 ≠ place).lookup q = entries.lookup q := by
  induction entries with
  | nil => rfl
  | cons e rest ih =>
      obtain ⟨key, entry⟩ := e
      by_cases hkey : key = place
      · subst hkey
        rw [List.filter_cons_of_neg (by simp), ih, List.lookup_cons, beq_false_of_ne hq]
      · rw [List.filter_cons_of_pos (by simpa using hkey), List.lookup_cons, List.lookup_cons, ih]

theorem lookup_filter_not_mem {entries : List (Place × Entry)} :
    (entries.filter fun e => e.1 ≠ place).lookup place = none := by
  rw [List.lookup_eq_none_iff]
  intro e he
  have hne : e.1 ≠ place := by simpa using (List.mem_filter.1 he).2
  simpa using hne.symm

theorem entry?_put (t : FileTree) (place q : Place) (entry : Entry) :
    FileTree.entry? (t.put place entry) q =
      if q = [] then some .directory else if q = place then some entry else t.entry? q := by
  unfold entry?
  split
  · rfl
  · show ((t.entries.filter fun e => e.1 ≠ place) ++ [(place, entry)]).lookup q = _
    rw [List.lookup_append]
    by_cases hq : q = place
    · subst hq
      rw [lookup_filter_not_mem]
      simp
    · rw [if_neg hq, lookup_filter_of_ne hq]
      simp [List.lookup_cons, beq_false_of_ne hq]

theorem entry?_prune (t : FileTree) (place q : Place) :
    FileTree.entry? (t.prune place) q =
      if q = [] then some .directory else if place <+: q then none else t.entry? q := by
  unfold entry?
  split
  · rfl
  · show (t.entries.filter fun e => !place.isPrefixOf e.1).lookup q = _
    split
    · rename_i hstarts
      rw [List.lookup_eq_none_iff]
      intro e he
      have hother : ¬ place <+: e.1 := by
        have hkept := (List.mem_filter.1 he).2
        rw [← List.isPrefixOf_iff_prefix]
        simpa only [Bool.not_eq_true', Bool.not_eq_true] using hkept
      have hne : q ≠ e.1 := fun h => hother (h ▸ hstarts)
      simpa using hne
    · rename_i hstarts
      induction t.entries with
      | nil => rfl
      | cons e rest ih =>
          obtain ⟨key, entry⟩ := e
          by_cases hkey : place <+: key
          · have hne : q ≠ key := fun h => hstarts (h ▸ hkey)
            rw [List.filter_cons_of_neg (by simpa using hkey), ih, List.lookup_cons,
              beq_false_of_ne hne]
          · have hkept : place.isPrefixOf key = false := by
              rw [Bool.eq_false_iff, ne_eq, List.isPrefixOf_iff_prefix]
              exact hkey
            rw [List.filter_cons_of_pos (by simp only [hkept, Bool.not_false]), List.lookup_cons,
              List.lookup_cons, ih]

/-- A place that is not edited keeps its entry. -/
theorem entry?_put_of_ne {entry : Entry} (hq : q ≠ place) :
    FileTree.entry? (t.put place entry) q = t.entry? q := by
  rw [entry?_put, if_neg hq]
  split
  · rename_i hroot
    rw [hroot]
    rfl
  · rfl

theorem entry?_prune_of_not_isPrefix (hq : ¬ place <+: q) :
    FileTree.entry? (t.prune place) q = t.entry? q := by
  rw [entry?_prune, if_neg hq]
  split
  · rename_i hroot
    rw [hroot]
    rfl
  · rfl

/-! ## Following paths -/

theorem walk_append (start : Place) (names rest : List String) :
    t.walk start (names ++ rest) =
      match t.walk start names with
      | .ok place => t.walk place rest
      | .error fault => .error fault := by
  induction names generalizing start with
  | nil => rfl
  | cons name names ih =>
      rw [List.cons_append, walk, walk]
      split
      · rfl
      · rfl
      · split
        · exact ih _
        · split
          · rfl
          · exact ih _

/-- To go on from a place it must be a directory. -/
theorem entry?_of_walk_cons {start : Place} {name : String} {rest : List String}
    (hwalk : t.walk start (name :: rest) = .ok place) :
    t.entry? start = some .directory := by
  unfold walk at hwalk
  split at hwalk
  · cases hwalk
  · cases hwalk
  · assumption

/-- What is above a place that a canonical path leads to is a directory. -/
theorem entry?_parent_of_locate {p : Path} (hp : ".." ∉ p.parts) (hparts : p.parts ≠ [])
    (hlocate : t.locate p = .ok place) : t.entry? p.parts.dropLast = some .directory := by
  have hwalk := (walk_of_locate hlocate).1
  rw [← List.dropLast_append_getLast hparts, walk_append] at hwalk
  split at hwalk
  · rename_i above habove
    have hup : ".." ∉ p.parts.dropLast := fun h => hp (List.dropLast_subset _ h)
    have hplace := walk_eq_of_not_mem habove hup
    rw [List.nil_append] at hplace
    rw [← hplace]
    exact entry?_of_walk_cons hwalk
  · cases hwalk

/-! ## Paths that go up once -/

/-- The directories that a path leads to or, if its last name goes up, goes up from. -/
structure LeadsDown (p : Path) (names : Place) : Prop where
  not_mem : ".." ∉ names
  parts_eq : p.parts = names ∨ p.parts = names ++ [".."]

theorem LeadsDown.of_not_mem {p : Path} (hp : ".." ∉ p.parts) : LeadsDown p p.parts :=
  ⟨hp, Or.inl rfl⟩

/-- Where a path leads that goes up in its last name, there is a directory. -/
theorem entry?_of_locate_up {p : Path} {names : Place} (hnames : ".." ∉ names)
    (hparts : p.parts = names ++ [".."]) (hlocate : t.locate p = .ok place) :
    place = names.dropLast ∧ t.entry? place = some .directory := by
  have hwalk := (walk_of_locate hlocate).1
  rw [hparts, walk_append] at hwalk
  split at hwalk
  · rename_i below hbelow
    have hsame := walk_eq_of_not_mem hbelow hnames
    rw [List.nil_append] at hsame
    subst hsame
    have hdirectory := entry?_of_walk_cons hwalk
    unfold walk at hwalk
    rw [hdirectory] at hwalk
    cases hwalk
    refine ⟨rfl, ?_⟩
    rcases List.eq_nil_or_concat below with rfl | ⟨above, name, rfl⟩
    · exact hdirectory
    · rw [List.concat_eq_append, walk_append] at hbelow
      rw [List.concat_eq_append, List.dropLast_concat]
      split at hbelow
      · rename_i here hhere
        have hup : ".." ∉ above := fun h => hnames (by simp [h])
        have hsame := walk_eq_of_not_mem hhere hup
        rw [List.nil_append] at hsame
        rw [← hsame]
        exact entry?_of_walk_cons hbelow
      · cases hbelow
  · cases hwalk

/-! ## Making directories -/

/-- Adds directories, each of them on the way down to `names` where nothing was. -/
def AddsDirectories (names : Place) : FileTree → FileTree → Prop :=
  Relation.ReflTransGen fun t t' =>
    ∃ place, place <+: names ∧ t.entry? place = none ∧ t' = t.put place .directory

namespace AddsDirectories

variable {names : Place}

theorem refl (t : FileTree) : AddsDirectories names t t :=
  Relation.ReflTransGen.refl

/-- What every such edit keeps is kept. -/
theorem keeps {P : FileTree → Prop} (hadds : AddsDirectories names t t') (ht : P t)
    (hput : ∀ {t place}, P t → place <+: names → t.entry? place = none →
      P (t.put place .directory)) : P t' := by
  induction hadds with
  | refl => exact ht
  | tail _ hlast ih =>
      obtain ⟨place, hstarts, hnone, rfl⟩ := hlast
      exact hput ih hstarts hnone

theorem mono {longer : Place} (hadds : AddsDirectories names t t') (hstarts : names <+: longer) :
    AddsDirectories longer t t' := by
  refine Relation.ReflTransGen.mono (fun _ _ hstep => ?_) _ _ hadds
  obtain ⟨place, h, hnone, heq⟩ := hstep
  exact ⟨place, h.trans hstarts, hnone, heq⟩

theorem entry?_eq (hadds : AddsDirectories names t t') (q : Place) :
    t'.entry? q = t.entry? q ∨
      q <+: names ∧ t.entry? q = none ∧ t'.entry? q = some .directory := by
  refine hadds.keeps (P := fun t' => t'.entry? q = t.entry? q ∨
    q <+: names ∧ t.entry? q = none ∧ t'.entry? q = some .directory) (Or.inl rfl) ?_
  intro t₁ place hq hstarts hnone
  rw [entry?_put]
  by_cases hroot : q = []
  · subst hroot
    exact Or.inl rfl
  · rw [if_neg hroot]
    by_cases hplace : q = place
    · subst hplace
      rw [if_pos rfl]
      rcases hq with hq | ⟨_, hbefore, -⟩
      · exact Or.inr ⟨hstarts, hq ▸ hnone, rfl⟩
      · exact Or.inr ⟨hstarts, hbefore, rfl⟩
    · rw [if_neg hplace]
      exact hq

/-- Files stay, and none are added. -/
theorem entry?_eq_file_iff (hadds : AddsDirectories names t t') {content : ByteArray} :
    t'.entry? q = some (.file content) ↔ t.entry? q = some (.file content) := by
  rcases hadds.entry?_eq q with h | ⟨-, hnone, hnew⟩
  · rw [h]
  · rw [hnone, hnew]
    simp

end AddsDirectories

theorem makeDirectory_eq_ok {p : Path} (hmake : t.makeDirectory p = .ok t') :
    ∃ place, t.locate p = .ok place ∧ t.entry? place = none ∧ t' = t.put place .directory := by
  unfold makeDirectory at hmake
  cases hlocate : t.locate p with
  | error => rw [hlocate] at hmake; cases hmake
  | ok place =>
      rw [hlocate] at hmake
      cases hentry : t.entry? place with
      | some => simp [bind, Except.bind, hentry, throw, throwThe, MonadExceptOf.throw] at hmake
      | none =>
          simp only [bind, Except.bind, hentry, pure, Except.pure] at hmake
          cases hmake
          exact ⟨place, rfl, hentry, rfl⟩

theorem ensureDirectory_adds {p : Path} {names : Place} (hp : LeadsDown p names)
    (hmake : t.ensureDirectory p = .ok t') : AddsDirectories names t t' := by
  unfold ensureDirectory at hmake
  split at hmake
  · rename_i made hmade
    cases hmake
    obtain ⟨place, hlocate, hnone, rfl⟩ := makeDirectory_eq_ok hmade
    rcases hp.parts_eq with hparts | hparts
    · have hwalk := (walk_of_locate hlocate).1
      have hplace := walk_eq_of_not_mem hwalk (hparts ▸ hp.not_mem)
      rw [List.nil_append, hparts] at hplace
      exact Relation.ReflTransGen.single ⟨place, hplace ▸ List.prefix_rfl, hnone, rfl⟩
    · have hthere := (entry?_of_locate_up hp.not_mem hparts hlocate).2
      rw [hnone] at hthere
      cases hthere
  · split at hmake
    · cases hmake
      exact .refl t
    · cases hmake

theorem LeadsDown.parent {p : Path} {names : Place} (hp : LeadsDown p names) :
    ∃ above, LeadsDown p.parent above ∧ above <+: names := by
  rcases hp.parts_eq with hparts | hparts
  · refine ⟨names.dropLast, ⟨fun h => hp.not_mem (List.dropLast_subset _ h), Or.inl ?_⟩,
      List.dropLast_prefix _⟩
    rw [Path.parent, hparts]
  · refine ⟨names, ⟨hp.not_mem, Or.inl ?_⟩, List.prefix_rfl⟩
    rw [Path.parent, hparts, List.dropLast_concat]

/-- Whether or not all of them can be made, only directories are added. -/
theorem makeLevels_adds {p : Path} {names : Place} (hp : LeadsDown p names) (count : Nat) :
    AddsDirectories names t (t.makeLevels count p).1 := by
  induction count generalizing t p names with
  | zero =>
      unfold makeLevels
      split
      · rename_i made hmade
        exact ensureDirectory_adds hp hmade
      · exact .refl t
  | succ count ih =>
      unfold makeLevels
      split
      · rename_i made hmade
        exact ensureDirectory_adds hp hmade
      · obtain ⟨above, habove, hstarts⟩ := hp.parent
        have hlevels := (ih habove (t := t)).mono hstarts
        split
        · rename_i t₁ hmade
          rw [hmade] at hlevels
          split
          · rename_i t₂ hlast
            exact hlevels.trans (ensureDirectory_adds hp hlast)
          · exact hlevels
        · exact hlevels
      · exact .refl t

theorem makeDirectories_adds {p : Path} {names : Place} (hp : LeadsDown p names) :
    AddsDirectories names t (t.makeDirectories p).1 :=
  makeLevels_adds hp _

/-! ## Writing files -/

/-- Where a file is written: its directory leads down to `names`, and the file stands
at `place`, which has no names but those of the path. -/
structure LeadsTo (p : Path) (names place : Place) : Prop where
  parent : LeadsDown p.parent names
  locate_eq : ∀ {t : FileTree} {q : Place}, t.locate p = .ok q → q = place
  subset : place ⊆ p.parts

theorem LeadsTo.of_not_mem {p : Path} (hp : ".." ∉ p.parts) :
    LeadsTo p p.parts.dropLast p.parts :=
  ⟨⟨fun h => hp (List.dropLast_subset _ h), Or.inl rfl⟩, FileTree.locate_eq hp,
    List.Subset.refl _⟩

/-- A path that goes up before its last name leads into the directory above. -/
theorem LeadsTo.of_up {p : Path} {names : Place} {name : String} (hnames : ".." ∉ names)
    (hname : name ≠ "..") (hparts : p.parts = names ++ ["..", name]) :
    LeadsTo p names (names.dropLast ++ [name]) := by
  have hsplit : p.parts = (names ++ [".."]) ++ [name] := by simp [hparts]
  refine ⟨⟨hnames, Or.inr ?_⟩, ?_, ?_⟩
  · rw [Path.parent, hsplit, List.dropLast_concat]
  · intro t q hlocate
    have hwalk := (walk_of_locate hlocate).1
    rw [hparts, walk_append] at hwalk
    split at hwalk
    · rename_i below hbelow
      have hsame := walk_eq_of_not_mem hbelow hnames
      rw [List.nil_append] at hsame
      subst hsame
      have hdirectory := entry?_of_walk_cons hwalk
      unfold walk at hwalk
      rw [hdirectory] at hwalk
      rw [walk_eq_of_not_mem hwalk (by simpa using hname.symm)]
    · cases hwalk
  · rw [hparts]
    intro n hn
    rcases List.mem_append.1 hn with hn | hn
    · exact List.mem_append_left _ (List.dropLast_subset _ hn)
    · simp [List.mem_singleton.1 hn]

theorem write_eq_ok {p : Path} {content : ByteArray} (hwrite : t.write p content = .ok t') :
    ∃ place, t.locate p = .ok place ∧ t.entry? place ≠ some .directory ∧
      t' = t.put place (.file content) := by
  unfold write at hwrite
  cases hlocate : t.locate p with
  | error => rw [hlocate] at hwrite; cases hwrite
  | ok place =>
      rw [hlocate] at hwrite
      simp only [bind, Except.bind] at hwrite
      split at hwrite
      · cases hwrite
      · rename_i hentry
        cases hwrite
        exact ⟨place, rfl, hentry, rfl⟩

theorem writeText_eq_ok {p : Path} {names place : Place} (hp : LeadsTo p names place)
    {text : List Char} (hwrite : t.writeText p text = .ok t') :
    (∀ name ∈ place, Path.isUsable name) ∧ t.entry? place ≠ some .directory ∧
      ∃ content, t' = t.put place (.file content) := by
  unfold writeText at hwrite
  cases hwritten : t.write p (String.ofList text).toUTF8 with
  | error => rw [hwritten] at hwrite; cases hwrite
  | ok written =>
      rw [hwritten] at hwrite
      cases hwrite
      obtain ⟨q, hlocate, hentry, rfl⟩ := write_eq_ok hwritten
      obtain rfl := hp.locate_eq hlocate
      exact ⟨fun name hname => (walk_of_locate hlocate).2 name (hp.subset hname), hentry, _, rfl⟩

theorem copyFile_eq_ok {source target : Path} (htarget : target.IsCanonical)
    (hcopy : t.copyFile source target = .ok t') :
    t.locate target = .ok target.parts ∧ t.entry? target.parts ≠ some .directory ∧
      ∃ content, t.read source = .ok content ∧ t' = t.put target.parts (.file content) := by
  unfold copyFile at hcopy
  cases hread : t.read source with
  | error => rw [hread] at hcopy; cases hcopy
  | ok content =>
      rw [hread] at hcopy
      cases hlocate : t.locate target with
      | error => rw [hlocate] at hcopy; cases hcopy
      | ok place =>
          rw [hlocate] at hcopy
          simp only [bind, Except.bind] at hcopy
          split at hcopy
          · cases hcopy
          · obtain ⟨q, hlocate', hentry, rfl⟩ := write_eq_ok hcopy
            obtain rfl := locate_eq htarget.not_mem hlocate'
            exact ⟨hlocate.symm.trans hlocate', hentry, content, rfl, rfl⟩

/-! ## Removing directories -/

theorem dropDirectory_eq_ok {p : Path} (hp : p.IsCanonical)
    (hdrop : t.dropDirectory p = .ok t') :
    t' = t ∧ t.pathExists p = .ok false ∨ t' = t.prune p.parts := by
  unfold dropDirectory at hdrop
  cases hexists : t.pathExists p with
  | error => rw [hexists] at hdrop; cases hdrop
  | ok there =>
      rw [hexists] at hdrop
      cases there with
      | false =>
          cases hdrop
          exact Or.inl ⟨rfl, rfl⟩
      | true =>
          right
          simp only [bind, Except.bind, if_true] at hdrop
          unfold removeDirectory at hdrop
          cases hstat : t.stat p with
          | error => rw [hstat] at hdrop; cases hdrop
          | ok entry =>
              rw [hstat] at hdrop
              cases entry with
              | file => cases hdrop
              | directory =>
                  cases hlocate : t.locate p with
                  | error => rw [hlocate] at hdrop; cases hdrop
                  | ok place =>
                      rw [hlocate] at hdrop
                      cases hdrop
                      rw [locate_eq hp.not_mem hlocate]

end FileTree

end Folio
