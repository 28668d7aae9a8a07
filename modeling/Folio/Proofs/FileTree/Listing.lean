import Folio.Check
import Folio.Proofs.FileTree.WellFormed

/-!
# Listing files by their endings

Every file that a listing gives stands in the tree below the directory listed, by
names of which the last has the ending asked for.
-/

namespace Folio

/-- A file below a directory by the names `names` and then `last`, which has an ending. -/
structure IsListed (t : FileTree) (directory : Path) (suffix : String) (names : List String)
    (last : String) : Prop where
  mem_entries : ∃ content, (directory.parts ++ (names ++ [last]), .file content) ∈ t.entries
  hasSuffix : hasSuffix suffix last.toList

theorem FileTree.mem_below {t : FileTree} {place : Place} {names : List String} {entry : Entry} :
    (names, entry) ∈ t.below place ↔ names ≠ [] ∧ (place ++ names, entry) ∈ t.entries := by
  unfold below
  rw [List.mem_filterMap]
  constructor
  · rintro ⟨⟨spot, found⟩, hmem, hspot⟩
    dsimp only at hspot
    split at hspot
    · rename_i hbelow
      cases hspot
      simp only [Bool.and_eq_true, List.isPrefixOf_iff_prefix, decide_eq_true_eq] at hbelow
      obtain ⟨⟨names, rfl⟩, hne⟩ := hbelow
      rw [List.drop_left]
      exact ⟨fun h => hne (by simp [h]), hmem⟩
    · cases hspot
  · rintro ⟨hne, hmem⟩
    refine ⟨_, hmem, ?_⟩
    have hbelow : (place.isPrefixOf (place ++ names) && place ++ names ≠ place) = true := by
      simp [hne]
    dsimp only
    rw [if_pos hbelow, List.drop_left]

theorem FileTree.stat_of_isDirectory {t : FileTree} {p : Path}
    (hdirectory : t.isDirectory p = .ok true) : t.stat p = .ok .directory := by
  unfold isDirectory probe at hdirectory
  split at hdirectory
  · rename_i entry hstat
    cases entry with
    | directory => exact hstat
    | file => cases hdirectory
  · cases hdirectory
  · cases hdirectory

theorem FileTree.mem_filesBelow {t : FileTree} {p : Path} (hup : ".." ∉ p.parts)
    (hdirectory : t.isDirectory p = .ok true) {names : List String} :
    names ∈ t.filesBelow p ↔
      names ≠ [] ∧ ∃ content, (p.parts ++ names, .file content) ∈ t.entries := by
  have hstat := stat_of_isDirectory hdirectory
  have hlocate : t.locate p = .ok p.parts := by
    cases hlocate : t.locate p with
    | error fault =>
        unfold stat at hstat
        rw [hlocate] at hstat
        cases hstat
    | ok place => rw [locate_eq hup hlocate]
  unfold filesBelow
  rw [hstat, hlocate]
  simp only [List.mem_filterMap]
  constructor
  · rintro ⟨⟨found, entry⟩, hbelow, hentry⟩
    obtain ⟨hne, hmem⟩ := mem_below.1 hbelow
    cases entry with
    | directory => cases hentry
    | file content =>
        cases hentry
        exact ⟨hne, content, hmem⟩
  · rintro ⟨hne, content, hmem⟩
    exact ⟨(names, .file content), mem_below.2 ⟨hne, hmem⟩, rfl⟩

/-- No entry below a place is there twice. -/
theorem FileTree.nodup_below {t : FileTree} (hnodup : (t.entries.map Prod.fst).Nodup)
    (place : Place) : ((t.below place).map Prod.fst).Nodup := by
  have hkeys : (t.below place).map Prod.fst = (t.entries.map Prod.fst).filterMap fun spot =>
      if place.isPrefixOf spot && spot ≠ place then some (spot.drop place.length) else none := by
    unfold below
    rw [List.map_filterMap, List.filterMap_map]
    refine List.filterMap_congr fun e _ => ?_
    simp only [Function.comp_apply]
    split <;> rfl
  rw [hkeys]
  refine hnodup.filterMap fun a a' names ha ha' => ?_
  simp only [Option.mem_def, Option.ite_none_right_eq_some, Bool.and_eq_true,
    List.isPrefixOf_iff_prefix, Option.some.injEq] at ha ha'
  obtain ⟨⟨⟨below, rfl⟩, -⟩, rfl⟩ := ha
  obtain ⟨⟨⟨below', rfl⟩, -⟩, hsame⟩ := ha'
  rw [List.drop_left, List.drop_left] at hsame
  rw [hsame]

/-- No file is listed twice. -/
theorem FileTree.nodup_filesBelow {t : FileTree} {p : Path}
    (hnodup : (t.entries.map Prod.fst).Nodup) : (t.filesBelow p).Nodup := by
  unfold filesBelow
  split
  · rename_i place _ _
    refine List.pairwise_filterMap.2 ((List.pairwise_map.1 (nodup_below hnodup place)).imp ?_)
    rintro ⟨names, _ | content⟩ ⟨names', _ | content'⟩ hne a ha a' ha'
    · cases ha
    · cases ha
    · cases ha'
    · cases ha
      cases ha'
      exact hne
  · exact List.nodup_nil

theorem mem_filesWithSuffix {t : FileTree} {directory p : Path} {suffix : String} :
    p ∈ filesWithSuffix t directory [suffix] ↔
      ∃ names ∈ t.filesBelow directory,
        hasSuffix suffix (names.getLast?.getD "").toList ∧
        p = ⟨directory.anchor, directory.parts ++ names⟩ := by
  unfold filesWithSuffix
  simp only [List.mem_map, List.mem_mergeSort, List.mem_filter, List.any_cons, List.any_nil,
    Bool.or_false]
  constructor
  · rintro ⟨_, ⟨names, ⟨hmem, hsuffix⟩, rfl⟩, rfl⟩
    exact ⟨names, hmem, hsuffix, rfl⟩
  · rintro ⟨names, hmem, hsuffix, rfl⟩
    exact ⟨_, ⟨names, ⟨hmem, hsuffix⟩, rfl⟩, rfl⟩

theorem nodup_filesWithSuffix {t : FileTree} {directory : Path} {suffixes : List String}
    (hnodup : (t.entries.map Prod.fst).Nodup) : (filesWithSuffix t directory suffixes).Nodup := by
  have hkept : ((t.filesBelow directory).filter fun names =>
      suffixes.any fun suffix => hasSuffix suffix (names.getLast?.getD "").toList).Nodup :=
    (FileTree.nodup_filesBelow hnodup).sublist List.filter_sublist
  have hkeyed := hkept.map (f := fun names => ("/".intercalate names, names))
    fun _ _ h => congrArg Prod.snd h
  unfold filesWithSuffix
  refine List.Nodup.map_on ?_ ((List.mergeSort_perm _ _).nodup_iff.2 hkeyed)
  rintro ⟨text, names⟩ hmem ⟨text', names'⟩ hmem' hsame
  obtain ⟨_, -, h⟩ := List.mem_map.1 (List.mem_mergeSort.1 hmem)
  obtain ⟨_, -, h'⟩ := List.mem_map.1 (List.mem_mergeSort.1 hmem')
  cases h
  cases h'
  have hnames : names = names' := List.append_cancel_left (congrArg Path.parts hsame)
  rw [hnames]

theorem filesIn_eq_ok {t : FileTree} {directory : Path} {suffixes : List String}
    {files : List Path} (hfiles : filesIn t directory suffixes = .ok files) :
    files = [] ∧ t.isDirectory directory = .ok false ∨
      files = filesWithSuffix t directory suffixes ∧ t.isDirectory directory = .ok true := by
  unfold filesIn at hfiles
  cases hdirectory : t.isDirectory directory with
  | error => rw [hdirectory] at hfiles; cases hfiles
  | ok there =>
      rw [hdirectory] at hfiles
      cases there with
      | false =>
          cases hfiles
          exact Or.inl ⟨rfl, rfl⟩
      | true =>
          cases hfiles
          exact Or.inr ⟨rfl, rfl⟩

theorem isListed_of_mem_filesIn {t : FileTree} {directory p : Path} {suffix : String}
    {files : List Path} (hup : ".." ∉ directory.parts)
    (hfiles : filesIn t directory [suffix] = .ok files) (hp : p ∈ files) :
    ∃ names last, IsListed t directory suffix names last ∧
      p = ⟨directory.anchor, directory.parts ++ (names ++ [last])⟩ := by
  rcases filesIn_eq_ok hfiles with ⟨rfl, -⟩ | ⟨rfl, hdirectory⟩
  · cases hp
  · obtain ⟨names, hmem, hsuffix, rfl⟩ := mem_filesWithSuffix.1 hp
    obtain ⟨hne, content, hentry⟩ := (FileTree.mem_filesBelow hup hdirectory).1 hmem
    obtain ⟨init, last, rfl⟩ := List.eq_nil_or_concat names |>.resolve_left hne
    rw [List.concat_eq_append] at hentry hsuffix ⊢
    refine ⟨init, last, ⟨⟨content, hentry⟩, ?_⟩, rfl⟩
    simpa using hsuffix

theorem IsListed.isFileName {t : FileTree} {directory : Path} {suffix : String}
    {names : List String} {last : String} (h : IsListed t directory suffix names last)
    (ht : t.Named) : ∀ name ∈ names ++ [last], IsFileName name := by
  obtain ⟨content, hmem⟩ := h.mem_entries
  exact fun name hname => ht _ hmem name (List.mem_append_right _ hname)

/-! ## Sources

What a listing gives of a tree in which each place has one entry. -/

/-- A file below a directory, the last name of which has an ending. -/
def IsSource (t : FileTree) (directory : Path) (suffix : String) (p : Path) : Prop :=
  ∃ names last, t.IsFile (directory.parts ++ (names ++ [last])) ∧
    hasSuffix suffix last.toList ∧
    p = ⟨directory.anchor, directory.parts ++ (names ++ [last])⟩

/-- A source has names that files can have. -/
theorem IsSource.exists_names {t : FileTree} {directory p : Path} {suffix : String}
    (h : IsSource t directory suffix p) (ht : t.Named) :
    ∃ names last, (∀ name ∈ names ++ [last], IsFileName name) ∧ hasSuffix suffix last.toList ∧
      p = ⟨directory.anchor, directory.parts ++ (names ++ [last])⟩ ∧ t.IsFile p.parts := by
  obtain ⟨names, last, ⟨content, hentry⟩, hsuffix, rfl⟩ := h
  refine ⟨names, last, fun name hname => ?_, hsuffix, rfl, content, hentry⟩
  have hmem := FileTree.mem_entries_of_eq_some (by simp) hentry
  exact ht _ hmem name (List.mem_append_right _ hname)

theorem FileTree.mem_entries_iff {t : FileTree} {place : Place} {entry : Entry}
    (hnodup : (t.entries.map Prod.fst).Nodup) (hplace : place ≠ []) :
    (place, entry) ∈ t.entries ↔ t.entry? place = some entry := by
  unfold entry?
  rw [if_neg hplace]
  rw [List.lookup_eq_some_iff]
  constructor
  · intro hmem
    obtain ⟨front, rest, hsplit⟩ := List.append_of_mem hmem
    refine ⟨front, rest, hsplit, fun e he => ?_⟩
    rw [hsplit, List.map_append, List.nodup_append] at hnodup
    have hne := hnodup.2.2 e.1 (List.mem_map_of_mem he) place (by simp)
    simpa using hne.symm
  · rintro ⟨front, rest, hsplit, -⟩
    rw [hsplit]
    simp

/-- A listing gives only sources, and each of them once. -/
theorem filesIn_sound {t : FileTree} {directory : Path} {suffix : String} {files : List Path}
    (hup : ".." ∉ directory.parts) (hnodup : (t.entries.map Prod.fst).Nodup)
    (hfiles : filesIn t directory [suffix] = .ok files) :
    files.Nodup ∧ ∀ p ∈ files, IsSource t directory suffix p := by
  refine ⟨?_, fun p hp => ?_⟩
  · rcases filesIn_eq_ok hfiles with ⟨rfl, -⟩ | ⟨rfl, -⟩
    · exact List.nodup_nil
    · exact nodup_filesWithSuffix hnodup
  · obtain ⟨names, last, ⟨⟨content, hentry⟩, hsuffix⟩, rfl⟩ := isListed_of_mem_filesIn hup hfiles hp
    exact ⟨names, last, ⟨content, (FileTree.mem_entries_iff hnodup (by simp)).1 hentry⟩, hsuffix,
      rfl⟩

/-- A listing that succeeds gives each source once, and nothing else, provided that
files are found only in a directory. -/
theorem filesIn_sources {t : FileTree} {directory : Path} {suffix : String} {files : List Path}
    (hup : ".." ∉ directory.parts) (hnodup : (t.entries.map Prod.fst).Nodup)
    (hthere : ∀ names, names ≠ [] → t.IsFile (directory.parts ++ names) →
      t.isDirectory directory ≠ .ok false)
    (hfiles : filesIn t directory [suffix] = .ok files) :
    files.Nodup ∧ ∀ p, p ∈ files ↔ IsSource t directory suffix p := by
  obtain ⟨hdistinct, hsound⟩ := filesIn_sound hup hnodup hfiles
  refine ⟨hdistinct, fun p => ⟨hsound p, ?_⟩⟩
  rintro ⟨names, last, ⟨content, hentry⟩, hsuffix, rfl⟩
  rcases filesIn_eq_ok hfiles with ⟨rfl, hmissing⟩ | ⟨rfl, hdirectory⟩
  · exact absurd hmissing (hthere _ (by simp) ⟨content, hentry⟩)
  · rw [← FileTree.mem_entries_iff hnodup (by simp)] at hentry
    have hmem := (FileTree.mem_filesBelow hup hdirectory).2 ⟨by simp, content, hentry⟩
    exact mem_filesWithSuffix.2 ⟨names ++ [last], hmem, by simpa using hsuffix, rfl⟩

end Folio
