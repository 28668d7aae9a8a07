import Folio.Proofs.Output.Pages

/-!
# What becomes of the components

A component that can be read and has a macro is shown in each of its states.  Each
preview that is asked for is written, recorded and linked to in the index, or it is
noted as failed.

Which previews are asked for depends on the templates alone, and these stay as they are,
so they are those of the tree that the build began with.
-/

namespace Folio

open Text FileTree

variable {l : Layout} {t₀ t : FileTree} {written : List Place}
  {recorded : List (String × ManifestEntry)} {r : BuildResult} {s : Stage}

/-! ## Previews -/

/-- A preview that a build is asked for: a component in one of its states. -/
structure Preview where
  component : ShownComponent
  state : ComponentState

namespace Preview

/-- Where a preview is written. -/
def target (p : Preview) (l : Layout) : Path :=
  l.componentsOut / p.component.id / (p.state.name ++ outputSuffix)

/-- What the manifest and the index call a preview. -/
def rel (p : Preview) (l : Layout) : String :=
  (p.target l).textBelow l.componentsOut

/-- The place of a preview among the files. -/
def place (p : Preview) (l : Layout) : Place :=
  Path.normalParts [] (p.target l).parts

/-- The link to a preview in the index. -/
def link (p : Preview) (l : Layout) : PreviewLink :=
  ⟨p.state.name, p.rel l⟩

end Preview

/-- The previews of the component of a file. -/
def previewsOf (l : Layout) (t : FileTree) (file : Path) : List Preview :=
  match t.readText file with
  | .error _ => []
  | .ok text =>
      match Source.firstMacroName? text with
      | none => []
      | some name =>
          match (loadStates file).outcome t with
          | .error _ => []
          | .ok states =>
              states.map (Preview.mk ⟨file, file.textBelow l.components, String.ofList name⟩)

/-- The file of a component that no text can be read from. -/
def IsUnreadable (t : FileTree) (file : Path) : Prop :=
  ∃ cause, t.readText file = .error cause

/-! ## Where previews go -/

/-- Previews are written in the output. -/
theorem IsComponent.output_isPrefix {c : ShownComponent} {names : List String}
    {last state : String} (hl : l.WellFormed) (hc : IsComponent c names last)
    (hstate : isStateName state) :
    l.output.parts <+: Path.normalParts []
      (l.componentsOut / c.id / (state ++ outputSuffix)).parts := by
  have hplain := Layout.IsRenewed.components.isPlain hl
  by_cases hup : IsUpName last
  · have hdrop : (l.componentsOut.parts ++ names).dropLast =
        l.output.parts ++ ("components" :: names).dropLast := by
      rw [Layout.parts_componentsOut, List.append_assoc, List.singleton_append,
        List.dropLast_append_of_ne_nil (by simp)]
    rw [hc.place_of_isUpName hplain hstate hup, hdrop, List.append_assoc]
    exact List.prefix_append ..
  · rw [hc.place_of_not_isUpName hplain hstate hup]
    exact Layout.IsRenewed.components.output_isPrefix.trans (List.prefix_append ..)

/-- The entry that the manifest has for a preview. -/
def RecordsPreview (l : Layout) (p : Preview) (item : String × ManifestEntry) : Prop :=
  item.1 = "components/" ++ p.rel l ∧ item.2.page = none ∧
    item.2.components.head? = some ⟨p.component.routine, p.component.file⟩

/-- A build that has dealt with the previews `jobs`, and has noted that some files could
not be read. -/
structure PreviewsBuilt (l : Layout) (t₀ : FileTree) (written : List Place)
    (recorded : List (String × ManifestEntry)) (r : BuildResult) (jobs : List Preview)
    (unreadable : List Path) (links : List PreviewLink) (shown failed : List Preview)
    (items : List (String × ManifestEntry)) (failures : List Path) (s : Stage) : Prop where
  perm : (shown ++ failed).Perm jobs
  links_eq : links = shown.map (·.link l)
  recorded_previews : List.Forall₂ (RecordsPreview l) shown items
  mem_failures : ∀ p, p ∈ failures ↔ p ∈ unreadable ∨ ∃ q ∈ failed, q.target l = p
  built : Built l t₀ (written ++ shown.map (·.place l)) (recorded ++ items)
    ⟨r.pagesRendered, r.pagesCopied, r.previews + shown.length, r.failures ++ failures, r.index,
      r.stylesheet⟩ s

namespace PreviewsBuilt

variable {jobs jobs' shown failed shown' failed' : List Preview}
  {unreadable unreadable' failures failures' : List Path} {links links' : List PreviewLink}
  {items items' : List (String × ManifestEntry)} {s' : Stage}

theorem nil (hs : Built l t₀ written recorded r s) :
    PreviewsBuilt l t₀ written recorded r [] [] [] [] [] [] [] s where
  perm := .nil
  links_eq := rfl
  recorded_previews := .nil
  mem_failures p := by simp
  built := by simpa using hs

/-- Going on with more previews. -/
theorem append
    (h : PreviewsBuilt l t₀ written recorded r jobs unreadable links shown failed items failures s)
    (h' : PreviewsBuilt l t₀ (written ++ shown.map (·.place l)) (recorded ++ items)
      ⟨r.pagesRendered, r.pagesCopied, r.previews + shown.length, r.failures ++ failures, r.index,
        r.stylesheet⟩ jobs' unreadable' links' shown' failed' items' failures' s') :
    PreviewsBuilt l t₀ written recorded r (jobs ++ jobs') (unreadable ++ unreadable')
      (links ++ links') (shown ++ shown') (failed ++ failed') (items ++ items')
      (failures ++ failures') s' where
  perm := by
    refine List.Perm.trans ?_ (h.perm.append h'.perm)
    rw [List.append_assoc, List.append_assoc]
    refine List.Perm.append_left shown ?_
    rw [← List.append_assoc, ← List.append_assoc]
    exact List.perm_append_comm.append_right failed'
  links_eq := by rw [List.map_append, h.links_eq, h'.links_eq]
  recorded_previews := List.rel_append h.recorded_previews h'.recorded_previews
  mem_failures p := by
    rw [List.mem_append, h.mem_failures, h'.mem_failures, or_or_or_comm]
    simp only [List.mem_append, or_and_right, exists_or]
  built := by simpa [List.append_assoc, Nat.add_assoc] using h'.built

end PreviewsBuilt

end Folio
