import Folio.Proofs.Output.Previews

/-!
# What a build is asked for

The sources of a space and the previews of its components are the jobs of a build.  No
source is both a template and a page that needs no rendering, or both a page and a
component.  Each preview is asked for once, and no preview is written among the pages.
-/

namespace Folio

open Text FileTree

variable {l : Layout} {t : FileTree} {file p : Path} {place : Place}

/-! ## Sources -/

namespace IsSource

variable {kind kind' : RootKind} {suffix suffix' : String}

theorem isUnder (h : IsSource t (l.rootOf kind) suffix p) : Path.isUnder (l.rootOf kind) p := by
  obtain ⟨names, last, -, -, rfl⟩ := h
  exact Path.isUnder_iff.2 ⟨rfl, List.prefix_append ..⟩

theorem templates_isPrefix (h : IsSource t (l.rootOf kind) suffix p) :
    l.templates.parts <+: p.parts := by
  refine List.IsPrefix.trans ?_ (Path.isUnder_iff.1 h.isUnder).2
  rw [Layout.parts_rootOf]
  exact List.prefix_append ..

end IsSource

/-! ## Previews -/

/-- Each of the previews of a file has a state of its own. -/
theorem previewsOf_eq (l : Layout) (t : FileTree) (file : Path) :
    ∃ (routine : String) (states : List ComponentState),
      previewsOf l t file =
        states.map (Preview.mk ⟨file, file.textBelow l.components, routine⟩) ∧
      (∀ state ∈ states, isStateName state.name) ∧
      (states.map ComponentState.name).Nodup := by
  unfold previewsOf
  split
  · exact ⟨"", [], rfl, by simp, List.nodup_nil⟩
  · split
    · exact ⟨"", [], rfl, by simp, List.nodup_nil⟩
    · rename_i name _
      split
      · exact ⟨"", [], rfl, by simp, List.nodup_nil⟩
      · rename_i states houtcome
        exact ⟨String.ofList name, states, rfl, names_of_outcome houtcome⟩

/-- A preview that the templates of a tree ask for. -/
def IsPreview (l : Layout) (t : FileTree) (preview : Preview) : Prop :=
  ∃ file, IsSource t l.components templateSuffix file ∧ preview ∈ previewsOf l t file

namespace IsPreview

variable {preview preview' : Preview}

theorem exists_names (h : IsPreview l t preview) (ht : t.Named) :
    isStateName preview.state.name ∧ ∃ names last, IsComponent preview.component names last := by
  obtain ⟨file, hsource, hmem⟩ := h
  obtain ⟨names, last, hnames, hsuffix, hparts, -⟩ := hsource.exists_names ht
  obtain ⟨routine, states, heq, hstates, -⟩ := previewsOf_eq l t file
  rw [heq] at hmem
  obtain ⟨state, hstate, rfl⟩ := List.mem_map.1 hmem
  refine ⟨hstates state hstate, names, last, hnames, hsuffix, ?_⟩
  rw [hparts]
  exact Path.textBelow_append (by simp)

end IsPreview

/-- A component with previews that go up a directory. -/
def ShownComponent.GoesUp (c : ShownComponent) : Prop :=
  ".." ∈ (Path.ofString c.id).parts

theorem IsComponent.goesUp_iff {c : ShownComponent} {names : List String} {last : String}
    (hc : IsComponent c names last) : c.GoesUp ↔ IsUpName last := by
  unfold ShownComponent.GoesUp
  rw [hc.id_eq]
  constructor
  · intro hmem
    by_contra hup
    exact (hc.stem_isFileName hup ".." hmem).2.2.1 rfl
  · intro hup
    rw [stemNames_of_isUpName hup]
    simp

namespace IsPreview

variable {preview : Preview}

end IsPreview

end Folio
