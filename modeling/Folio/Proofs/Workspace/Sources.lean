import Folio.Proofs.Output.Frame
import Folio.Proofs.Workspace.Mirror

/-!
# Sources stay

Nothing keeps the output of a space apart from the templates of the spaces that are built:
where the two meet, the output wins (`lost_sharedFiles`).  A source anywhere else is left
as it was, whatever the build of the workspace comes to, and with the space that is built
in there is no exception (`buildWorkspace_keeps_source`).

## Strategy

The build of one space leaves every file outside its output alone.  To go on with the next
space, it must also be known that no component was added whose previews go up.
-/

namespace Folio

open FileTree

/-- A place below one of the directories in which a space has its templates and styles. -/
def Layout.IsSource (l : Layout) (place : Place) : Prop :=
  ∃ directory ∈ l.conventional, directory.parts <+: place

/-- No component whose previews go up is in the second tree alone. -/
def AddsNoUp (t t' : FileTree) : Prop :=
  ∀ above name content, IsUpName name →
    t'.entry? (above ++ [name]) = some (.file content) →
    t.entry? (above ++ [name]) = some (.file content)

variable {l : Layout} {place : Place} {content : ByteArray} {t t' : FileTree}

theorem AddsNoUp.trans {t'' : FileTree} (h : AddsNoUp t t') (h' : AddsNoUp t' t'') :
    AddsNoUp t t'' := fun above name _ hname hentry =>
  h above name _ hname (h' above name _ hname hentry)

/-- A tree in which a file stands at a place. -/
structure Standing (place : Place) (content : ByteArray) (t : FileTree) : Prop where
  named : t.Named
  entry?_eq : t.entry? place = some (.file content)

theorem Layout.IsSource.templates_isPrefix (h : l.IsSource place) :
    l.templates.parts <+: place := by
  obtain ⟨directory, hdirectory, hplace⟩ := h
  have hstyles : IsFileName "styles" := by decide
  refine List.IsPrefix.trans ?_ hplace
  rcases List.mem_append.1 hdirectory with hroot | hroot
  · obtain ⟨kind, -, rfl⟩ := List.mem_map.1 hroot
    rw [Layout.parts_rootOf]
    exact List.prefix_append ..
  · obtain rfl := List.mem_singleton.1 hroot
    unfold Layout.styles
    rw [Path.joinText_name hstyles]
    exact List.prefix_append ..

/-- Two directories in one directory have nothing in common. -/
theorem not_isPrefix_of_sibling {above : Place} {name other : String} (hne : name ≠ other)
    (hplace : above ++ [sentinelName, name] <+: place) :
    ¬ above ++ [sentinelName, other] <+: place := by
  intro hother
  have hlength : (above ++ [sentinelName, name]).length =
      (above ++ [sentinelName, other]).length := by simp
  have hstarts := List.prefix_of_prefix_length_le hplace hother (Nat.le_of_eq hlength)
  have hsame := hstarts.eq_of_length hlength
  exact hne (by simpa using hsame)

end Folio
