import Folio.Proofs.Output.Clashes
import Folio.Proofs.Output.Edits
import Folio.Proofs.Output.Frame

/-!
# The tally of a build

A build counts what it renders, and gives each output an entry in the manifest under its
key.  An output with the key of an earlier one takes over its entry, and the count goes up all
the same.  So the count is the number of entries unless two jobs clash.

Nothing is assumed of where the output lies.  The templates that are listed can be such as
the build itself wrote before it listed them.

## Strategy

`Counting` says which jobs have been counted and which have been recorded, and that the counts
and the keys are theirs.  Only a step that counts or records needs an argument of its own
(`Counting.page`, `Counting.preview`, `Counting.record`); all else keeps it.  Between the
actions that belong to one job the two lists are the same (`Tally`), so a loop does some of
the jobs that it goes through, in their order, and these repeat none.
-/

namespace Folio

open Text FileTree

variable {l : Layout} {t : FileTree} {jobs : List Job} {s : Stage}

/-! ## Counting and recording -/

/-- A build that has counted some jobs and has recorded some: its manifest has one entry for
each key of those. -/
structure Counting (l : Layout) (counted recorded : List Job) (s : Stage) : Prop where
  layout_eq : s.layout = l
  manifest_eq : s.manifest.layout = l
  single : s.session.files.Single
  nodup_keys : s.manifest.keys.Nodup
  mem_keys : ∀ key, key ∈ s.manifest.keys ↔ ∃ j ∈ recorded, j.key l = key
  pages_eq : s.result.pagesRendered = counted.countP Job.isPage
  previews_eq : s.result.previews = counted.countP (!Job.isPage ·)

section

variable {counted recorded : List Job}

namespace Counting

theorem failed (hs : Counting l counted recorded s) (p : Path) (cause : Cause) :
    Counting l counted recorded (Step.failed s p cause) :=
  { hs with }

/-- A page is counted. -/
theorem page (hs : Counting l counted recorded s) (p : Path) (log : List Record) :
    Counting l (counted ++ [.page p]) recorded ((s.reporting log).counting fun r =>
      { r with pagesRendered := r.pagesRendered + 1 }) :=
  { hs with
    pages_eq := by simp [Stage.counting, Stage.reporting, hs.pages_eq, Job.isPage]
    previews_eq := by simp [Stage.counting, Stage.reporting, hs.previews_eq, Job.isPage] }

/-- A preview is counted. -/
theorem preview (hs : Counting l counted recorded s) (q : Preview) (log : List Record) :
    Counting l (counted ++ [.preview q]) recorded ((s.reporting log).counting fun r =>
      { r with previews := r.previews + 1 }) :=
  { hs with
    pages_eq := by simp [Stage.counting, Stage.reporting, hs.pages_eq, Job.isPage]
    previews_eq := by simp [Stage.counting, Stage.reporting, hs.previews_eq, Job.isPage] }

/-- A job is recorded under its key, be that new or not. -/
theorem record {m : Manifest} {entry : ManifestEntry} {j : Job}
    (hs : Counting l counted recorded s) (hlayout : m.layout = s.manifest.layout)
    (hentries : m.entries = putKey s.manifest.entries (j.key l) entry) :
    Counting l counted (recorded ++ [j]) (s.recording m) :=
  { hs with
    manifest_eq := hlayout.trans hs.manifest_eq
    nodup_keys := by
      show (m.entries.map Prod.fst).Nodup
      rw [hentries]
      exact nodup_putKey hs.nodup_keys
    mem_keys := fun key => by
      -- Whether the key is there already does not matter for which keys there are.
      have hkeys : key ∈ s.manifest.entries.map Prod.fst ↔ _ := hs.mem_keys key
      show key ∈ m.entries.map Prod.fst ↔ _
      rw [hentries, key_mem_putKey, hkeys, or_comm]
      simp [or_and_right, exists_or, eq_comm] }

end Counting

/-! ## Pages -/

end

/-- The previews of one component that are done: it is shown in states of different names. -/
structure Shows (l : Layout) (file : Path) (shown : List Preview) : Prop where
  file_eq : ∀ q ∈ shown, q.component.file = file
  rel_eq : ∀ q ∈ shown, q.component.rel = file.textBelow l.components
  isStateName : ∀ q ∈ shown, isStateName q.state.name
  nodup : (shown.map fun q => q.state.name).Nodup

theorem Shows.nil (l : Layout) (file : Path) : Shows l file [] :=
  ⟨by simp, by simp, by simp, List.nodup_nil⟩

/-- Previews of some files, each of them of a state of its own. -/
structure ShowsAll (l : Layout) (files : List Path) (shown : List Preview) : Prop where
  file_mem : ∀ q ∈ shown, q.component.file ∈ files
  rel_eq : ∀ q ∈ shown, q.component.rel = q.component.file.textBelow l.components
  isStateName : ∀ q ∈ shown, isStateName q.state.name
  nodup : (shown.map fun q => (Job.preview q).source).Nodup

/-- The previews of one file more. -/
theorem ShowsAll.append {files : List Path} {file : Path} {shown more : List Preview}
    (h : ShowsAll l files shown) (hmore : Shows l file more) (hfile : file ∉ files) :
    ShowsAll l (files ++ [file]) (shown ++ more) where
  file_mem q hq := by
    rcases List.mem_append.1 hq with hq | hq
    · exact List.mem_append_left _ (h.file_mem q hq)
    · simp [hmore.file_eq q hq]
  rel_eq q hq := by
    rcases List.mem_append.1 hq with hq | hq
    · exact h.rel_eq q hq
    · rw [hmore.rel_eq q hq, hmore.file_eq q hq]
  isStateName q hq := (List.mem_append.1 hq).elim (h.isStateName q) (hmore.isStateName q)
  nodup := by
    rw [List.map_append]
    refine List.nodup_append.2 ⟨h.nodup, ?_, ?_⟩
    · refine List.Nodup.of_map (fun source : Path × Option String => source.2.getD "") ?_
      rw [List.map_map]
      exact hmore.nodup
    · intro source hsource source' hsource' hsame
      obtain ⟨q, hq, rfl⟩ := List.mem_map.1 hsource
      obtain ⟨q', hq', rfl⟩ := List.mem_map.1 hsource'
      have hfiles : q.component.file = q'.component.file := congrArg Prod.fst hsame
      rw [hmore.file_eq q' hq'] at hfiles
      exact hfile (hfiles ▸ h.file_mem q hq)

namespace Counting

end Counting

end Folio
