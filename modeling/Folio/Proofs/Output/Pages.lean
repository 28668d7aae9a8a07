import Folio.Proofs.Output.Disk
import Folio.Proofs.Output.Manifest
import Folio.Proofs.Output.Outline

/-!
# What becomes of the pages

Each template among the pages is rendered, which writes and records one output, or is
noted as failed, which does neither.  The pages that need no rendering are copied, noted
as failed, or passed over for a rendered page with the same output.

`Built l t₀ written recorded r s` ties the parts of a build together: the files are
those written at the places `written`, the manifest has what was recorded, and the
result is `r`.  The small steps add to one of the three.
-/

namespace Folio

open Text FileTree

variable {l : Layout} {t₀ : FileTree} {written written' : List Place}
  {recorded : List (String × ManifestEntry)} {r : BuildResult} {s : Stage} {page : Path}

/-! ## Sources in two lists -/

section

variable {α : Type} {first second all : List α}

/-- One more source may join those of the first kind. -/
theorem perm_concat_left (h : (first ++ second).Perm all) (x : α) :
    (first ++ [x] ++ second).Perm (all ++ [x]) := by
  refine List.Perm.trans ?_ (h.append_right [x])
  rw [List.append_assoc, List.append_assoc]
  exact List.perm_append_comm.append_left first

theorem perm_concat_right (h : (first ++ second).Perm all) (x : α) :
    (first ++ (second ++ [x])).Perm (all ++ [x]) := by
  rw [← List.append_assoc]
  exact h.append_right [x]

end

/-- Each member of the first of two lists that go together has one in the second. -/
theorem exists_mem_of_forall₂ {α β : Type} {R : α → β → Prop} {xs : List α} {ys : List β}
    (h : List.Forall₂ R xs ys) : ∀ x ∈ xs, ∃ y ∈ ys, R x y := by
  induction h with
  | nil => simp
  | cons hhead _ ih =>
      intro x hx
      rcases List.mem_cons.1 hx with rfl | hx
      · exact ⟨_, List.mem_cons_self, hhead⟩
      · obtain ⟨y, hy, hxy⟩ := ih x hx
        exact ⟨y, List.mem_cons_of_mem _ hy, hxy⟩

/-! ## The state of a build -/

/-- A build from the files `t₀` that has written and recorded outputs, and has come to
the result `r`. -/
structure Built (l : Layout) (t₀ : FileTree) (written : List Place)
    (recorded : List (String × ManifestEntry)) (r : BuildResult) (s : Stage) : Prop where
  layout_eq : s.layout = l
  manifest_eq : s.manifest.layout = l
  disk : Disk l t₀ written s.session.files
  records : s.manifest.Records recorded
  result_eq : s.result = r

namespace Built

/-- What an action does to the files is what a build does with it. -/
theorem act {α : Type} {a : Action α} (h : Built l t₀ written recorded r s)
    (ha : Ends a s.session (fun _ s' => Disk l t₀ written' s'.files)
      fun _ s' => Disk l t₀ written s'.files) :
    Ends (Step.act a) s (fun _ => Built l t₀ written' recorded r)
      fun _ => Built l t₀ written recorded r :=
  Step.ends_act.2 <| ha.mono
    (fun _ _ hdisk => ⟨h.layout_eq, h.manifest_eq, hdisk, h.records, h.result_eq⟩)
    fun _ _ hdisk => ⟨h.layout_eq, h.manifest_eq, hdisk, h.records, h.result_eq⟩

theorem count (h : Built l t₀ written recorded r s) (change : BuildResult → BuildResult) :
    Built l t₀ written recorded (change r) { s with result := change s.result } :=
  ⟨h.layout_eq, h.manifest_eq, h.disk, h.records, congrArg change h.result_eq⟩

theorem failed (h : Built l t₀ written recorded r s) (p : Path) (cause : Cause) :
    Built l t₀ written recorded { r with failures := r.failures ++ [p] } (Step.failed s p cause) :=
  ⟨h.layout_eq, h.manifest_eq, h.disk, h.records, by rw [← h.result_eq]; rfl⟩

/-- The manifest that is put into a build may come from an earlier moment of it. -/
theorem record {key : String} {entry : ManifestEntry} {m m' : Manifest}
    (h : Built l t₀ written recorded r s) (hlayout : m.layout = l) (hrecords : m.Records recorded)
    (hlayout' : m'.layout = m.layout) (hentries : m'.entries = putKey m.entries key entry) :
    Built l t₀ written (recorded ++ [(key, entry)]) r { s with manifest := m' } :=
  ⟨h.layout_eq, hlayout'.trans hlayout, h.disk, hrecords.put hentries, h.result_eq⟩

end Built

/-! ## Rendering -/

/-- What is left of a page that was rendered. -/
structure PageRendered (l : Layout) (t₀ : FileTree) (written : List Place)
    (recorded : List (String × ManifestEntry)) (r : BuildResult) (page : Path)
    (o : Option String) (s : Stage) : Prop where
  some_name : o = some (l.pageName page)
  built : ∃ entry : ManifestEntry, entry.page = some ⟨page.stem, page⟩ ∧
    Built l t₀ (written ++ [(l.pageOut page).parts])
      (recorded ++ [("pages/" ++ l.pageName page, entry)])
      { r with pagesRendered := r.pagesRendered + 1 } s

/-- What is left of a source that failed. -/
structure SourceFailed (l : Layout) (t₀ : FileTree) (written : List Place)
    (recorded : List (String × ManifestEntry)) (r : BuildResult) (p : Path) {α : Type}
    (o : Option α) (s : Stage) : Prop where
  none_name : o = none
  built : Built l t₀ written recorded { r with failures := r.failures ++ [p] } s

/-- The entry that the manifest has for a page. -/
def RecordsPage (l : Layout) (page : Path) (item : String × ManifestEntry) : Prop :=
  item.1 = "pages/" ++ l.pageName page ∧ item.2.page = some ⟨page.stem, page⟩

/-- A build that has rendered some of the pages `done`, while the others failed. -/
structure PagesDone (l : Layout) (t₀ : FileTree) (done rendered failed : List Path)
    (recorded : List (String × ManifestEntry)) (names : List String) (s : Stage) : Prop where
  perm : (rendered ++ failed).Perm done
  names_eq : names = rendered.map l.pageName
  recorded_pages : List.Forall₂ (RecordsPage l) rendered recorded
  built : Built l t₀ (rendered.map fun page => (l.pageOut page).parts) recorded
    ⟨rendered.length, 0, 0, failed, [], none⟩ s

/-- One page more is either rendered or failed. -/
theorem PagesDone.step {done rendered failed : List Path} {names : List String}
    {o : Option String} {s' : Stage} (h : PagesDone l t₀ done rendered failed recorded names s)
    (hpage : PageRendered l t₀ (rendered.map fun page => (l.pageOut page).parts) recorded
        ⟨rendered.length, 0, 0, failed, [], none⟩ page o s' ∨
      SourceFailed l t₀ (rendered.map fun page => (l.pageOut page).parts) recorded
        ⟨rendered.length, 0, 0, failed, [], none⟩ page o s') :
    ∃ rendered failed recorded,
      PagesDone l t₀ (done ++ [page]) rendered failed recorded (names ++ o.toList) s' := by
  rcases hpage with ⟨rfl, entry, hentry, hbuilt⟩ | ⟨rfl, hbuilt⟩
  · refine ⟨rendered ++ [page], failed, recorded ++ [("pages/" ++ l.pageName page, entry)],
      perm_concat_left h.perm page, ?_, ?_, ?_⟩
    · rw [h.names_eq, List.map_append]
      rfl
    · exact List.rel_append h.recorded_pages (.cons ⟨rfl, hentry⟩ .nil)
    · simpa using hbuilt
  · refine ⟨rendered, failed ++ [page], recorded, perm_concat_right h.perm page, ?_,
      h.recorded_pages, hbuilt⟩
    rw [h.names_eq]
    simp

end Folio
