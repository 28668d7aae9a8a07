import Folio.Manifest
import Folio.Proofs.FileTree.Following
import Folio.Proofs.FileTree.Listing
import Folio.Proofs.Session.States
import Folio.TemplateSource

/-!
# Reading the same templates

Two trees that have the same directory of templates are read alike below it: the same
files are listed, the same templates are loaded, the same states are found, and the
components have the same names.

`SameTemplates l t t'` is what all of this needs.  It is about paths, since a path can
be too long for what stands at its place.
-/

namespace Folio

open Text FileTree

variable {t t' : FileTree} {l : Layout} {p : Path}

namespace Layout

/-- A path that leads into the directory of templates and nowhere up. -/
structure Covers (l : Layout) (p : Path) : Prop where
  not_mem : ".." ∉ p.parts
  isPrefix : l.templates.parts <+: p.parts

/-- What is found by a path among the templates is the same in both trees. -/
def SameTemplates (l : Layout) (t t' : FileTree) : Prop :=
  ∀ p, l.Covers p → t.stat p = t'.stat p

/-- The places on the way to the templates are directories where the templates are. -/
theorem sameTemplates_of_directory (ht : t.WellFormed) (ht' : t'.WellFormed)
    (hthere : t.entry? l.templates.parts = some .directory)
    (hsame : ∀ q, l.templates.parts <+: q → t.entry? q = t'.entry? q) :
    l.SameTemplates t t' := by
  have hthere' : t'.entry? l.templates.parts = some .directory :=
    hsame _ List.prefix_rfl ▸ hthere
  intro p hp
  refine stat_congr_along (.of_not_mem hp.not_mem) fun q hq => ?_
  rcases List.prefix_or_prefix_of_prefix hp.isPrefix hq with h | h
  · exact hsame q h
  · by_cases hq : q = l.templates.parts
    · exact hsame q (hq ▸ List.prefix_rfl)
    · rw [ht.directoriesAbove (by simp [hthere]) q h hq,
        ht'.directoriesAbove (by simp [hthere']) q h hq]

end Layout

/-! ## Finding and reading files -/

theorem firstFile_congr {paths : List Path}
    (hsame : ∀ c ∈ paths, ∀ q, c.resolved = .ok q → t.isFile q = t'.isFile q) :
    firstFile t paths = firstFile t' paths := by
  induction paths with
  | nil => rfl
  | cons c rest ih =>
      obtain ⟨hfirst, hrest⟩ := List.forall_mem_cons.1 hsame
      unfold firstFile
      cases hc : c.resolved with
      | error e => rfl
      | ok q =>
          have hfile := hfirst q hc
          simp only [Except.mapError, bind, Except.bind, hfile, ih hrest]

/-- The names that a template is opened by lead down. -/
theorem not_mem_of_templateNames {name : String} {names : List String}
    (hnames : templateNames? name = some names) : ".." ∉ names := by
  unfold templateNames? at hnames
  dsimp only at hnames
  split at hnames
  · cases hnames
  · rename_i hup
    cases hnames
    intro hmem
    obtain ⟨piece, hpiece, hdots⟩ := List.mem_map.1 hmem
    have hchars : piece = ['.', '.'] := by
      rw [← String.toList_ofList (l := piece), hdots]
      rfl
    rw [List.contains_iff_mem, ← hchars] at hup
    exact hup (List.mem_filter.1 hpiece).1

namespace Layout.SameTemplates

theorem readText (h : l.SameTemplates t t') (hp : l.Covers p) :
    t.readText p = t'.readText p :=
  readText_congr (h p hp)

theorem isFile (h : l.SameTemplates t t') (hp : l.Covers p) : t.isFile p = t'.isFile p := by
  unfold FileTree.isFile
  rw [probe_congr (h p hp)]

theorem loaderOf (h : l.SameTemplates t t') {roots : List Path}
    (hroots : ∀ root ∈ roots, l.Covers root) : loaderOf t roots = loaderOf t' roots := by
  have hbelow : ∀ root ∈ roots, ∀ {name : String} {names : List String},
      templateNames? name = some names → l.Covers ⟨root.anchor, root.parts ++ names⟩ := by
    intro root hroot name names hnames
    refine ⟨?_, (hroots root hroot).isPrefix.trans (List.prefix_append ..)⟩
    rw [List.mem_append]
    exact fun hup => hup.elim (hroots root hroot).not_mem (not_mem_of_templateNames hnames)
  have hfind : ∀ name, findTemplate t roots name = findTemplate t' roots name := by
    intro name
    unfold findTemplate
    cases hnames : templateNames? name with
    | none => rfl
    | some names =>
        simp only [bind, Option.bind_some]
        rw [List.find?_map, List.find?_map]
        congr 1
        refine List.find?_congr fun root hroot => ?_
        show FileTree.hasFile t _ = FileTree.hasFile t' _
        unfold FileTree.hasFile
        rw [h _ (hbelow root hroot hnames)]
  funext name
  unfold Folio.loaderOf openSource
  rw [hfind name]
  cases hfound : findTemplate t' roots name with
  | none => rfl
  | some file =>
      have hcovered : l.Covers file := by
        unfold findTemplate at hfound
        cases hnames : templateNames? name with
        | none =>
            rw [hnames] at hfound
            cases hfound
        | some names =>
            rw [hnames] at hfound
            simp only [bind, Option.bind_some] at hfound
            obtain ⟨root, hroot, rfl⟩ := List.mem_map.1 (List.mem_of_find?_eq_some hfound)
            exact hbelow root hroot hnames
      dsimp only
      rw [h.readText hcovered]

/-- The file of states lies beside the component. -/
theorem loadStates (h : l.SameTemplates t t') {directory : Path} {names : List String}
    {last : String} (hdirectory : l.Covers directory) (hnames : ".." ∉ names) :
    (loadStates ⟨directory.anchor, directory.parts ++ (names ++ [last])⟩).outcome t =
      (Folio.loadStates ⟨directory.anchor, directory.parts ++ (names ++ [last])⟩).outcome t' := by
  refine loadStates_congr fun path hpath => h path ?_
  unfold Path.withName? at hpath
  split at hpath
  · cases hpath
  · cases hpath
    have hfront : (directory.parts ++ (names ++ [last])).dropLast = directory.parts ++ names := by
      rw [← List.append_assoc, List.dropLast_concat]
    dsimp only
    rw [hfront]
    refine ⟨?_, ?_⟩
    · rw [List.mem_append, List.mem_append, List.mem_singleton]
      rintro ((hup | hup) | hup)
      · exact hdirectory.not_mem hup
      · exact hnames hup
      · exact append_states_ne _ hup.symm
    · rw [List.append_assoc]
      exact hdirectory.isPrefix.trans (List.prefix_append ..)

end Layout.SameTemplates

/-! ## Names in the manifest -/

namespace Manifest

theorem nameOf_congr (h : l.SameTemplates t t') (hp : l.Covers p) : nameOf t p = nameOf t' p := by
  unfold nameOf
  rw [h.readText hp]

theorem componentRefs_congr (h : l.SameTemplates t t') {paths : List Path}
    (hpaths : ∀ p ∈ paths, l.Covers p) (m : Manifest) :
    m.componentRefs t paths = m.componentRefs t' paths := by
  induction paths generalizing m with
  | nil => rfl
  | cons p rest ih =>
      obtain ⟨hfirst, hrest⟩ := List.forall_mem_cons.1 hpaths
      have hname : m.componentName t p = m.componentName t' p := by
        unfold componentName
        rw [nameOf_congr h hfirst]
      unfold componentRefs
      rw [hname]
      cases m.componentName t' p with
      | error cause => rfl
      | ok found =>
          simp only [bind, Except.bind]
          rw [ih hrest]

theorem addPage_congr (h : l.SameTemplates t t') {d : Dependencies}
    (hd : ∀ p ∈ d.components, l.Covers p) (m : Manifest) (page : Path) (tags : List String)
    (relationships : List (String × List String)) (related : Bool) :
    m.addPage t page d tags relationships related =
      m.addPage t' page d tags relationships related := by
  unfold addPage
  rw [componentRefs_congr h fun p hp => hd p (Path.mem_sortDistinct.1 hp)]

theorem addState_congr (h : l.SameTemplates t t') {d : Dependencies}
    (hd : ∀ p ∈ d.components, l.Covers p) (m : Manifest) (key : String) (component : Path)
    (name : String) (tags : List String) :
    m.addState t key component name d tags = m.addState t' key component name d tags := by
  have hrefs : ∀ entry : Path,
      m.componentRefs t ((Path.sortDistinct d.components).filter (· ≠ entry)) =
        m.componentRefs t' ((Path.sortDistinct d.components).filter (· ≠ entry)) := fun entry =>
    componentRefs_congr h (fun p hp => hd p (Path.mem_sortDistinct.1 (List.mem_filter.1 hp).1)) m
  unfold addState
  simp only [hrefs]

end Manifest

/-! ## Lists of files -/

/-- The text of names tells them apart. -/
theorem intercalate_inj {names names' : List String} (hnames : ∀ name ∈ names, IsFileName name)
    (hnames' : ∀ name ∈ names', IsFileName name)
    (h : "/".intercalate names = "/".intercalate names') : names = names' := by
  have hread := Path.ofString_intercalate hnames
  rw [h, Path.ofString_intercalate hnames'] at hread
  exact congrArg Path.parts hread.symm

/-- Files are listed in the order of their texts, whatever order they are found in. -/
theorem filesWithSuffix_congr {directory : Path} (suffixes : List String)
    (hperm : (t.filesBelow directory).Perm (t'.filesBelow directory))
    (hnames : ∀ names ∈ t.filesBelow directory, ∀ name ∈ names, IsFileName name) :
    filesWithSuffix t directory suffixes = filesWithSuffix t' directory suffixes := by
  unfold filesWithSuffix
  dsimp only
  congr 1
  have hkeyed := (hperm.filter fun names =>
    suffixes.any fun suffix => hasSuffix suffix (names.getLast?.getD "").toList).map
      fun names => ("/".intercalate names, names)
  have hsorted : ∀ keyed : List (String × List String),
      (keyed.mergeSort fun a b => decide (a.1 ≤ b.1)).Pairwise
        fun a b => decide (a.1 ≤ b.1) = true := by
    refine List.pairwise_mergeSort (fun a b c hab hbc => ?_) fun a b => ?_
    · exact decide_eq_true (String.le_trans (of_decide_eq_true hab) (of_decide_eq_true hbc))
    · rw [Bool.or_eq_true, decide_eq_true_eq, decide_eq_true_eq]
      exact String.le_total a.1 b.1
  refine List.Perm.eq_of_pairwise (fun a b ha hb hab hba => ?_) (hsorted _) (hsorted _)
    ((List.mergeSort_perm _ _).trans (hkeyed.trans (List.mergeSort_perm _ _).symm))
  have hfrom : ∀ {c : String × List String}, c ∈ ((t.filesBelow directory).filter fun names =>
      suffixes.any fun suffix => hasSuffix suffix (names.getLast?.getD "").toList).map
        (fun names => ("/".intercalate names, names)) →
      c.1 = "/".intercalate c.2 ∧ ∀ name ∈ c.2, IsFileName name := by
    intro c hc
    obtain ⟨names, hmem, rfl⟩ := List.mem_map.1 hc
    exact ⟨rfl, hnames names (List.mem_filter.1 hmem).1⟩
  obtain ⟨hkey, ha⟩ := hfrom (List.mem_mergeSort.1 ha)
  obtain ⟨hkey', hb⟩ := hfrom (hkeyed.mem_iff.2 (List.mem_mergeSort.1 hb))
  have heq : a.1 = b.1 := String.le_antisymm (of_decide_eq_true hab) (of_decide_eq_true hba)
  refine Prod.ext heq (intercalate_inj ha hb ?_)
  rw [← hkey, ← hkey', heq]

/-- A directory that is there in both trees has the same files. -/
theorem filesWithSuffix_eq (ht : t.WellFormed) (ht' : t'.WellFormed) {directory : Path}
    (hdirectory : l.Covers directory) (suffix : String)
    (hsame : ∀ q, l.templates.parts <+: q → t.entry? q = t'.entry? q)
    (hthere : t.isDirectory directory = .ok true)
    (hthere' : t'.isDirectory directory = .ok true) :
    filesWithSuffix t directory [suffix] = filesWithSuffix t' directory [suffix] := by
  have hmem : ∀ names, names ∈ t.filesBelow directory ↔ names ∈ t'.filesBelow directory := by
    intro names
    rw [mem_filesBelow hdirectory.not_mem hthere, mem_filesBelow hdirectory.not_mem hthere']
    refine and_congr_right fun hne => exists_congr fun content => ?_
    have hplace : directory.parts ++ names ≠ [] := by simp [hne]
    rw [mem_entries_iff ht.nodup hplace, mem_entries_iff ht'.nodup hplace,
      hsame _ (hdirectory.isPrefix.trans (List.prefix_append ..))]
  have hperm := (List.perm_ext_iff_of_nodup (nodup_filesBelow ht.nodup)
    (nodup_filesBelow ht'.nodup)).2 hmem
  refine filesWithSuffix_congr [suffix] hperm fun names hnames name hname => ?_
  obtain ⟨-, content, hentry⟩ := (mem_filesBelow hdirectory.not_mem hthere).1 hnames
  exact ht.named _ hentry name (List.mem_append_right _ hname)

end Folio
