import Folio.Proofs.Output.Whole

/-!
# The inventory of a build

When a build has ended, the files in its two directories, the keys of its manifest and
the links of its index are those of one and the same ledger: of the sources that gave an
output.  Nothing else is there, so nothing of an earlier build is, and a source that
failed has neither a file nor an entry of its own.

A preview is called by the names that lead to it, unless its component goes up.  Then
it lands beside the place that it is called by, which is the one way in which files and
keys can differ.
-/

namespace Folio

open Text FileTree

variable {l : Layout} {t₀ : FileTree} {g : Ledger} {r : BuildResult} {s : Stage}

/-! ## What was recorded -/

/-- The entries of a manifest are those of the pages and previews of a ledger. -/
structure Ledger.Recorded (g : Ledger) (l : Layout) (m : Manifest) : Prop where
  of_mem : ∀ item ∈ m.entries,
    (∃ p ∈ g.rendered, RecordsPage l p item) ∨ ∃ q ∈ g.shown, RecordsPreview l q item
  page_mem : ∀ p ∈ g.rendered, "pages/" ++ l.pageName p ∈ m.keys
  preview_mem : ∀ q ∈ g.shown, "components/" ++ q.rel l ∈ m.keys

theorem Whole.recorded (h : Whole l t₀ g r s) : g.Recorded l s.manifest := by
  obtain ⟨items, items', hpages, hpreviews, hrecords⟩ := h.records
  have hpages' : List.Forall₂ (fun item p => RecordsPage l p item) items g.rendered := hpages.flip
  have hpreviews' : List.Forall₂ (fun item q => RecordsPreview l q item) items' g.shown :=
    hpreviews.flip
  refine ⟨fun item hitem => ?_, fun p hp => ?_, fun q hq => ?_⟩
  · rcases List.mem_append.1 (hrecords.mem_items item hitem) with hitem | hitem
    · exact Or.inl (exists_mem_of_forall₂ hpages' item hitem)
    · exact Or.inr (exists_mem_of_forall₂ hpreviews' item hitem)
  · obtain ⟨item, hitem, hrecord⟩ := exists_mem_of_forall₂ hpages p hp
    exact hrecords.mem_keys.2 ⟨item, List.mem_append_left _ hitem, hrecord.1⟩
  · obtain ⟨item, hitem, hrecord⟩ := exists_mem_of_forall₂ hpreviews q hq
    exact hrecords.mem_keys.2 ⟨item, List.mem_append_right _ hitem, hrecord.1⟩

namespace Ledger.Recorded

variable {m : Manifest}

end Ledger.Recorded

/-! ## Where the files are -/

namespace Whole

variable {place : Place}

end Whole

/-! ## The inventory -/

namespace Whole

end Whole

end Folio
