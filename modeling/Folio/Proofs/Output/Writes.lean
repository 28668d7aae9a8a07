import Folio.Output.Preview
import Folio.Proofs.FileTree.Writing
import Folio.Proofs.Output.Steps

/-!
# What the output steps write

For each action that writes output, the edits it makes of the file tree, both when it
succeeds and when it fails.  A page is written by adding the directories above it and
then one file; if it cannot be written, the directories stay.
-/

namespace Folio

open FileTree

variable {s : Session} {p : Path} {names place : Place}

theorem ends_failBuild {α : Type} {message : String} {fault : FileFault}
    {Q : α → Session → Prop} {E : Failure → Session → Prop} (hE : ∀ e, E e s) :
    Ends (failBuild message fault) s Q E := by
  unfold failBuild
  exact ends_throw.2 (hE _)

theorem ensureDirectory_ends (hp : LeadsDown p names) :
    Ends (ensureDirectory p) s (fun _ s' => AddsDirectories names s.files s'.files)
      fun _ s' => AddsDirectories names s.files s'.files := by
  have hadds := makeDirectories_adds (t := s.files) hp
  unfold ensureDirectory
  simp only [ends_bind, Action.ends_files, Action.ends_setFiles]
  split
  · exact ends_pure.2 hadds
  · exact ends_failBuild fun _ => hadds

/-- A directory is renewed by removing it, if it is there, and making it. -/
def Renews (p : Path) (t t' : FileTree) : Prop :=
  ∃ t₁, (t₁ = t ∧ t.pathExists p = .ok false ∨ t₁ = t.prune p.parts) ∧
    AddsDirectories p.parts t₁ t'

theorem renewDirectory_ends (hp : p.IsCanonical) :
    Ends (renewDirectory p) s (fun _ s' => Renews p s.files s'.files)
      fun _ s' => s'.files = s.files ∨ Renews p s.files s'.files := by
  unfold renewDirectory
  simp only [ends_bind, Action.ends_files]
  split
  · rename_i t hdrop
    simp only [ends_bind, Action.ends_setFiles]
    refine (ensureDirectory_ends (.of_not_mem hp.not_mem)).mono (fun _ s' h => ?_) fun _ s' h => ?_
    · exact ⟨t, dropDirectory_eq_ok hp hdrop, h⟩
    · exact Or.inr ⟨t, dropDirectory_eq_ok hp hdrop, h⟩
  · rw [ends_bind]
    exact ends_failBuild fun _ => Or.inl rfl

/-- A file is written by adding the directories above it, and then the file. -/
def WritesFile (names place : Place) (t t' : FileTree) : Prop :=
  (∀ name ∈ place, Path.isUsable name) ∧
    ∃ t₁ content, AddsDirectories names t t₁ ∧ t₁.entry? place ≠ some .directory ∧
      t' = t₁.put place (.file content)

theorem writePage_ends (hp : LeadsTo p names place) {html : List Char} :
    Ends (writePage p html) s (fun _ s' => WritesFile names place s.files s'.files)
      fun _ s' => AddsDirectories names s.files s'.files := by
  unfold writePage
  simp only [ends_bind]
  refine (ensureDirectory_ends hp.parent).mono (fun _ s' hadds => ?_) fun _ _ h => h
  simp only [Action.ends_orRaise, Action.ends_files]
  split
  · split
    · rename_i t hwritten
      obtain ⟨husable, hentry, content, rfl⟩ := writeText_eq_ok hp hwritten
      exact Action.ends_setFiles.2 ⟨husable, s'.files, content, hadds, hentry, rfl⟩
    · exact hadds
  · exact hadds

/-- A tree with at most one file put at a place, where no directory is. -/
def PutsFile (place : Place) (t t' : FileTree) : Prop :=
  t' = t ∨ t.entry? place ≠ some .directory ∧ ∃ content, t' = t.put place (.file content)

theorem copyStylesheet_ends {l : Layout} (hl : l.stylesheetOut.IsCanonical) :
    Ends (copyStylesheet l) s (fun _ s' => PutsFile l.stylesheetOut.parts s.files s'.files)
      fun _ s' => s'.files = s.files := by
  unfold copyStylesheet
  simp only [ends_bind, Action.ends_files, Action.ends_orRaise]
  split
  · split
    · simp only [ends_bind, Action.ends_warn, ends_pure]
      exact Or.inl rfl
    · split
      · rename_i t hcopy
        simp only [ends_bind, Action.ends_setFiles, ends_pure]
        obtain ⟨-, hfree, content, -, rfl⟩ := copyFile_eq_ok hl hcopy
        exact Or.inr ⟨hfree, content, rfl⟩
      · simp only [ends_bind, Action.ends_warn, ends_pure]
        exact Or.inl rfl
  · trivial

theorem writeFile_ends {l : Layout} {name : String} {d : Data.Json.Document} {count : Nat}
    (hp : (l.output / name).IsCanonical) :
    Ends (Manifest.writeFile l name d count) s
      (fun _ s' => PutsFile (l.output / name).parts s.files s'.files) fun _ _ => False := by
  unfold Manifest.writeFile
  simp only [ends_bind, Action.ends_files]
  split
  · rename_i t hwritten
    simp only [ends_bind, Action.ends_setFiles, Action.ends_info, ends_pure]
    exact Or.inr (writeText_eq_ok (.of_not_mem hp.not_mem) hwritten).2
  · simp only [ends_bind, Action.ends_warn, ends_pure]
    exact Or.inl rfl

/-! ## What is kept if writing keeps it

What the larger steps do beside writing changes no file, no count and no entry. -/

section

variable {P : FileTree → Prop} {page target : Path}

theorem keeps_copyPage
    (hwrite : ∀ html, Keeps (fun s : Session => P s.files) (writePage target html)) :
    Keeps (fun s : Session => P s.files) (copyPage page target) := by
  unfold copyPage
  exact .bind Action.reads_files.keeps fun t => .bind (Action.reads_orRaise _).keeps hwrite

theorem keeps_writeIndex {l : Layout} {components : List ComponentListing}
    (hproduce : Keeps (fun s : Session => P s.files) (produceIndex l components)) :
    Keeps (fun s : Session => P s.files) (writeIndex l components) := by
  have hattempt : Keeps (fun s : Session => P s.files)
      (Action.attempt (produceIndex l components)) :=
    ⟨fun s hs => Action.ends_attempt.2 (hproduce.ends s hs)⟩
  unfold writeIndex
  split
  · refine .bind hattempt fun outcome => ?_
    split
    · exact keeps_pure _
    · split
      · exact (Action.reads_warn _ _).keeps
      · exact keeps_throw _
    · exact keeps_throw _
  · exact keeps_pure _

end

/-! ## Producing output

A page or a preview is written in the end.  All that goes before leaves a property that is
lasting as it is. -/

namespace Lasting

variable {I J : Stage → Prop} {F : Failure → Stage → Prop} {s : Stage} {target page : Path}
  {rel : String} {c : ShownComponent} {state : ComponentState}

theorem ends_producePage (hI : Lasting I) (hs : I s)
    (hwrite : ∀ html s', I s' → Ends (Step.act (writePage target html)) s' (fun _ => J) F)
    (hF : ∀ e s', I s' → F e s') : Ends (producePage page rel target) s (fun _ => J) F := by
  unfold producePage
  refine Step.keeps_files.ends_bind hs (fun t s hs => ?_) hF
  refine (Step.yields_orRaise _).ends_bind hs (fun text s hs _ => ?_) hF
  refine Step.keeps_layout.ends_bind hs (fun _ s hs => ?_) hF
  refine (Step.yields_orRaise _).ends_bind hs (fun found s hs _ => ?_) hF
  refine (Step.keeps_stylesheetHref _).ends_bind hs (fun stylesheet s hs => ?_) hF
  refine (hI.keeps_reads (reads_frontmatterData _ _)).ends_bind hs (fun data s hs => ?_) hF
  refine yields_get.ends_bind hs (fun _ s hs _ => ?_) hF
  refine (hI.keeps_inPages _).ends_bind hs (fun html s hs => ?_) hF
  exact ends_bind.2 ((hwrite html s hs).mono (fun _ _ h => ends_pure.2 h) fun _ _ h => h)

theorem ends_producePreview (hI : Lasting I) (hs : I s)
    (hwrite : ∀ html s', I s' → Ends (Step.act (writePage target html)) s' (fun _ => J) F)
    (hF : ∀ e s', I s' → F e s') : Ends (producePreview c state target) s (fun _ => J) F := by
  unfold producePreview
  refine Step.keeps_files.ends_bind hs (fun t s hs => ?_) hF
  refine Step.keeps_layout.ends_bind hs (fun _ s hs => ?_) hF
  refine (Step.yields_orRaise _).ends_bind hs (fun found s hs _ => ?_) hF
  refine (hI.keeps_inPreviews _).ends_bind hs (fun body s hs => ?_) hF
  refine (Step.keeps_stylesheetHref _).ends_bind hs (fun stylesheet s hs => ?_) hF
  exact hwrite _ s hs

theorem keeps_producePage (hI : Lasting I)
    (hwrite : ∀ html, Keeps I (Step.act (writePage target html))) :
    Keeps I (producePage page rel target) :=
  ⟨fun _ hs => hI.ends_producePage hs (fun html => (hwrite html).ends) fun _ _ h => h⟩

theorem keeps_producePreview (hI : Lasting I)
    (hwrite : ∀ html, Keeps I (Step.act (writePage target html))) :
    Keeps I (producePreview c state target) :=
  ⟨fun _ hs => hI.ends_producePreview hs (fun html => (hwrite html).ends) fun _ _ h => h⟩

end Lasting

end Folio
