import Folio.Proofs.FileTree.Writing
import Folio.Proofs.Path.Names

/-!
# Trees of a file system

In a tree of a file system every place has one entry, and all that is above a place
with an entry is a directory.

How a path is followed through directories depends on its names alone.  So two trees
that have the same entry at the end of a path, below directories in both, are read
alike there.
-/

namespace Folio

namespace FileTree

variable {t t' : FileTree} {place q : Place} {p : Path}

/-- A tree in which all names are names that files can have. -/
def Named (t : FileTree) : Prop :=
  ∀ e ∈ t.entries, ∀ name ∈ e.1, IsFileName name

/-- A tree in which all above a place is a directory. -/
def DirectoriesAbove (t : FileTree) (place : Place) : Prop :=
  ∀ q, q <+: place → q ≠ place → t.entry? q = some .directory

/-- A tree as a file system has it. -/
structure WellFormed (t : FileTree) : Prop where
  named : t.Named
  nodup : (t.entries.map Prod.fst).Nodup
  above : ∀ place name, t.entry? (place ++ [name]) ≠ none → t.entry? place = some .directory

theorem mem_entries_of_eq_some {entry : Entry} (hplace : place ≠ [])
    (hentry : t.entry? place = some entry) : (place, entry) ∈ t.entries := by
  unfold entry? at hentry
  rw [if_neg hplace] at hentry
  obtain ⟨front, rest, hsplit, -⟩ := List.lookup_eq_some_iff.1 hentry
  rw [hsplit]
  simp

/-- A tree whose entries stand in directories, each once, is one of a file system. -/
theorem wellFormed_of_entries (hnodup : (t.entries.map Prod.fst).Nodup)
    (hentries : ∀ e ∈ t.entries, (∀ name ∈ e.1, IsFileName name) ∧
      t.entry? e.1.dropLast = some .directory) : t.WellFormed := by
  refine ⟨fun e he => (hentries e he).1, hnodup, fun place name hthere => ?_⟩
  obtain ⟨entry, hentry⟩ := Option.ne_none_iff_exists'.1 hthere
  have hdirectory := (hentries _ (mem_entries_of_eq_some (by simp) hentry)).2
  rwa [List.dropLast_concat] at hdirectory

theorem WellFormed.entry?_above (ht : t.WellFormed) {names : List String} (hnames : names ≠ [])
    (hthere : t.entry? (place ++ names) ≠ none) : t.entry? place = some .directory := by
  induction names using List.reverseRecOn with
  | nil => exact absurd rfl hnames
  | append_singleton init last ih =>
      rw [← List.append_assoc] at hthere
      have hlast := ht.above _ _ hthere
      by_cases hinit : init = []
      · rwa [hinit, List.append_nil] at hlast
      · exact ih hinit (by simp [hlast])

/-- Two places in one directory have the same directories above them. -/
theorem DirectoriesAbove.sibling {name name' : String}
    (h : t.DirectoriesAbove (place ++ [name])) : t.DirectoriesAbove (place ++ [name']) := by
  intro q hq hne
  have hstarts := (List.prefix_concat_iff.1 hq).resolve_left hne
  refine h q (hstarts.trans (List.prefix_append ..)) fun heq => ?_
  have hlength := hstarts.length_le
  rw [heq, List.length_append, List.length_singleton] at hlength
  omega

theorem WellFormed.directoriesAbove (ht : t.WellFormed) (hthere : t.entry? place ≠ none) :
    t.DirectoriesAbove place := by
  rintro q ⟨names, rfl⟩ hne
  exact ht.entry?_above (fun h => hne (by simp [h])) hthere

/-! ## Following paths through directories -/

/-- A path that no file can have because it or one of its names is too long. -/
def isTooLong (p : Path) : Bool :=
  maxPathBytes ≤ p.toString.utf8ByteSize ||
    p.parts.any fun name => maxNameBytes < name.utf8ByteSize

theorem walk_of_directories {names : List String} {start : Place} (hup : ".." ∉ names)
    (hthrough : ∀ init, init <+: names → init ≠ names →
      t.entry? (start ++ init) = some .directory) :
    t.walk start names =
      if names.any fun name => maxNameBytes < name.utf8ByteSize then .error .nameTooLong
      else .ok (start ++ names) := by
  induction names generalizing start with
  | nil => simp [walk]
  | cons name rest ih =>
      have hname : name ≠ ".." := fun h => hup (by simp [h])
      have hstart : t.entry? start = some .directory := by
        simpa using hthrough [] List.nil_prefix (by simp)
      unfold walk
      rw [hstart]
      dsimp only
      rw [if_neg hname]
      by_cases hlong : maxNameBytes < name.utf8ByteSize
      · rw [if_pos hlong, List.any_cons, decide_eq_true hlong, Bool.true_or, if_pos rfl]
      · rw [if_neg hlong, List.any_cons, decide_eq_false hlong, Bool.false_or,
          ih (fun h => hup (List.mem_cons_of_mem _ h)) fun init hinit hne => ?_]
        · simp
        · have hbelow := hthrough (name :: init) (List.cons_prefix_cons.2 ⟨rfl, hinit⟩)
            fun h => hne (List.cons_injective h)
          simpa using hbelow

theorem locate_of_directories (hp : p.IsCanonical) (habove : t.DirectoriesAbove p.parts) :
    t.locate p = if isTooLong p then .error .nameTooLong else .ok p.parts := by
  have husable : p.parts.all Path.isUsable = true := List.all_eq_true.2 hp.usable
  have hwalk : t.walk [] p.parts = _ :=
    walk_of_directories hp.not_mem fun init hinit hne => habove init hinit hne
  unfold locate isTooLong
  rw [husable, hwalk]
  by_cases hlong : maxPathBytes ≤ p.toString.utf8ByteSize
  · simp [hlong]
  · simp [hlong]

/-- Below directories, what stands at the end of a path is all that matters. -/
theorem stat_congr (hup : ".." ∉ p.parts) (habove : t.DirectoriesAbove p.parts)
    (habove' : t'.DirectoriesAbove p.parts) (hentry : t.entry? p.parts = t'.entry? p.parts) :
    t.stat p = t'.stat p := by
  have hwalk : t.walk [] p.parts = t'.walk [] p.parts := by
    have hfirst : t.walk [] p.parts = _ := walk_of_directories hup fun init => habove init
    have hsecond : t'.walk [] p.parts = _ := walk_of_directories hup fun init => habove' init
    rw [hfirst, hsecond]
  have hlocate : t.locate p = t'.locate p := by
    unfold locate
    rw [hwalk]
  unfold stat
  rw [hlocate]
  cases hplace : t'.locate p with
  | error => rfl
  | ok place =>
      obtain rfl := locate_eq hup hplace
      simp only [bind, Except.bind, hentry]

theorem stat_of_directories (hp : p.IsCanonical) (habove : t.DirectoriesAbove p.parts)
    {entry : Entry} (hentry : t.entry? p.parts = some entry) :
    t.stat p = .ok entry ∨ t.stat p = .error .nameTooLong := by
  unfold stat
  rw [locate_of_directories hp habove]
  by_cases hlong : isTooLong p = true
  · rw [if_pos hlong]
    exact Or.inr rfl
  · rw [if_neg hlong]
    simp only [bind, Except.bind, hentry]
    exact Or.inl rfl

/-- What is there is not taken to be missing. -/
theorem pathExists_ne_false (hp : p.IsCanonical) (habove : t.DirectoriesAbove p.parts)
    (hthere : t.entry? p.parts ≠ none) : t.pathExists p ≠ .ok false := by
  obtain ⟨entry, hentry⟩ := Option.ne_none_iff_exists'.1 hthere
  unfold pathExists probe
  rcases stat_of_directories hp habove hentry with h | h
  · rw [h]
    simp [Except.map]
  · rw [h]
    simp [Except.map]

theorem isDirectory_ne_false (hp : p.IsCanonical) (habove : t.DirectoriesAbove p.parts)
    (hentry : t.entry? p.parts = some .directory) : t.isDirectory p ≠ .ok false := by
  unfold isDirectory probe
  rcases stat_of_directories hp habove hentry with h | h
  · rw [h]
    simp [Except.map]
  · rw [h]
    simp [Except.map]

theorem readText_congr (hstat : t.stat p = t'.stat p) : t.readText p = t'.readText p := by
  unfold readText read
  rw [hstat]

/-! ## Files -/

/-- Whether a file stands at a place. -/
def IsFile (t : FileTree) (place : Place) : Prop :=
  ∃ content, t.entry? place = some (.file content)

theorem not_isFile_nil : ¬ t.IsFile [] := by
  rintro ⟨content, h⟩
  cases h

theorem isFile_put_file {content : ByteArray} (hplace : place ≠ []) :
    (t.put place (.file content)).IsFile q ↔ q = place ∨ t.IsFile q := by
  by_cases hroot : q = []
  · subst hroot
    constructor
    · exact fun h => absurd h not_isFile_nil
    · exact fun h => h.elim (fun h => absurd h.symm hplace) fun h => absurd h not_isFile_nil
  · unfold IsFile
    rw [entry?_put, if_neg hroot]
    by_cases hq : q = place
    · rw [if_pos hq]
      exact ⟨fun _ => Or.inl hq, fun _ => ⟨content, rfl⟩⟩
    · rw [if_neg hq]
      exact ⟨Or.inr, fun h => h.resolve_left hq⟩

theorem isFile_prune : (t.prune place).IsFile q ↔ ¬ place <+: q ∧ t.IsFile q := by
  by_cases hroot : q = []
  · subst hroot
    constructor
    · exact fun h => absurd h not_isFile_nil
    · exact fun h => absurd h.2 not_isFile_nil
  · unfold IsFile
    rw [entry?_prune, if_neg hroot]
    by_cases hstarts : place <+: q
    · rw [if_pos hstarts]
      constructor
      · rintro ⟨content, h⟩
        cases h
      · exact fun h => absurd hstarts h.1
    · rw [if_neg hstarts]
      exact ⟨fun h => ⟨hstarts, h⟩, And.right⟩

theorem AddsDirectories.isFile_iff {names : Place} (hadds : AddsDirectories names t t') :
    t'.IsFile q ↔ t.IsFile q :=
  exists_congr fun _ => hadds.entry?_eq_file_iff

/-! ## Entries of an edited tree -/

theorem named_put {entry : Entry} (ht : t.Named) (hplace : ∀ name ∈ place, IsFileName name) :
    (t.put place entry).Named := by
  intro e he
  rcases List.mem_append.1 he with he | he
  · exact ht e (List.mem_filter.1 he).1
  · obtain rfl := List.mem_singleton.1 he
    exact hplace

theorem named_prune (ht : t.Named) : (t.prune place).Named :=
  fun e he => ht e (List.mem_filter.1 he).1

theorem nodup_put {entry : Entry} (ht : (t.entries.map Prod.fst).Nodup) :
    ((t.put place entry).entries.map Prod.fst).Nodup := by
  show (((t.entries.filter fun e => e.1 ≠ place) ++ [(place, entry)]).map Prod.fst).Nodup
  rw [List.map_append, List.nodup_append]
  refine ⟨ht.sublist (List.filter_sublist.map _), by simp, fun a ha b hb => ?_⟩
  obtain ⟨e, he, rfl⟩ := List.mem_map.1 ha
  obtain rfl := List.mem_singleton.1 hb
  simpa using (List.mem_filter.1 he).2

theorem nodup_prune (ht : (t.entries.map Prod.fst).Nodup) :
    ((t.prune place).entries.map Prod.fst).Nodup :=
  ht.sublist (List.filter_sublist.map _)

end FileTree

end Folio
