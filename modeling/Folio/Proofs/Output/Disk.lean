import Folio.Proofs.Output.Building

/-!
# The files during a build

While a build runs, the templates of the space stay as they were, provided that neither
the templates nor the output lie in the other.  The two directories that were emptied
hold the files that have been written since, and no others.

`Disk l t₀ written t` says so of the tree `t` of a build that began with `t₀`.
-/

namespace Folio

open Text FileTree

variable {l : Layout} {t₀ t t' : FileTree} {names place q : Place}

/-- Neither the templates nor the output lie in the other. -/
structure Layout.Apart (l : Layout) : Prop where
  output_not_isPrefix : ¬ l.output.parts <+: l.templates.parts
  templates_not_isPrefix : ¬ l.templates.parts <+: l.output.parts

namespace Layout.Apart

theorem not_templates_isPrefix (hapart : l.Apart) (hplace : l.output.parts <+: place) :
    ¬ l.templates.parts <+: place := by
  intro h
  rcases List.prefix_or_prefix_of_prefix h hplace with h | h
  · exact hapart.templates_not_isPrefix h
  · exact hapart.output_not_isPrefix h

theorem not_prefix_templates (hapart : l.Apart) (hplace : l.output.parts <+: place) :
    ¬ place <+: l.templates.parts :=
  fun h => hapart.output_not_isPrefix (hplace.trans h)

theorem ne_nil (hapart : l.Apart) (hplace : l.output.parts <+: place) : place ≠ [] := by
  rintro rfl
  exact hapart.not_prefix_templates hplace List.nil_prefix

end Layout.Apart

/-! ## The templates -/

/-- A tree in which the templates are as they were, and directories above them, too. -/
structure KeepsSources (l : Layout) (t₀ t : FileTree) : Prop where
  named : t.Named
  nodup : (t.entries.map Prod.fst).Nodup
  source_eq : ∀ q, l.templates.parts <+: q → t.entry? q = t₀.entry? q
  above_eq : ∀ q, q <+: l.templates.parts → t₀.entry? q ≠ none → t.entry? q = t₀.entry? q

namespace KeepsSources

theorem refl (ht₀ : t₀.WellFormed) : KeepsSources l t₀ t₀ :=
  ⟨ht₀.named, ht₀.nodup, fun _ _ => rfl, fun _ _ _ => rfl⟩

theorem addsDirectories (h : KeepsSources l t₀ t) (hapart : l.Apart)
    (houtput : l.output.parts <+: names) (hnames : ∀ name ∈ names, IsFileName name)
    (hadds : AddsDirectories names t t') : KeepsSources l t₀ t' where
  named := hadds.keeps h.named fun ht hstarts _ =>
    named_put ht fun name hname => hnames name (hstarts.subset hname)
  nodup := hadds.keeps (P := fun t => (t.entries.map Prod.fst).Nodup) h.nodup
    fun ht _ _ => nodup_put ht
  source_eq q hq := by
    rcases hadds.entry?_eq q with heq | ⟨hstarts, -, -⟩
    · rw [heq, h.source_eq q hq]
    · exact absurd (hq.trans hstarts) (hapart.not_templates_isPrefix houtput)
  above_eq q hq hthere := by
    have hsame := h.above_eq q hq hthere
    rcases hadds.entry?_eq q with heq | ⟨-, hnone, -⟩
    · rw [heq, hsame]
    · rw [← hsame, hnone] at hthere
      exact absurd rfl hthere

theorem putFile (h : KeepsSources l t₀ t) (hapart : l.Apart) {content : ByteArray}
    (houtput : l.output.parts <+: place) (hnames : ∀ name ∈ place, IsFileName name) :
    KeepsSources l t₀ (t.put place (.file content)) where
  named := named_put h.named hnames
  nodup := nodup_put h.nodup
  source_eq q hq := by
    have hne : q ≠ place := fun heq => hapart.not_templates_isPrefix houtput (heq ▸ hq)
    rw [entry?_put_of_ne hne, h.source_eq q hq]
  above_eq q hq hthere := by
    have hne : q ≠ place := fun heq => hapart.not_prefix_templates houtput (heq ▸ hq)
    rw [entry?_put_of_ne hne, h.above_eq q hq hthere]

theorem prune (h : KeepsSources l t₀ t) (hapart : l.Apart) (houtput : l.output.parts <+: place) :
    KeepsSources l t₀ (t.prune place) where
  named := named_prune h.named
  nodup := nodup_prune h.nodup
  source_eq q hq := by
    have hne : ¬ place <+: q := by
      intro hstarts
      rcases List.prefix_or_prefix_of_prefix hstarts hq with h | h
      · exact hapart.not_prefix_templates houtput h
      · exact hapart.not_templates_isPrefix houtput h
    rw [entry?_prune_of_not_isPrefix hne, h.source_eq q hq]
  above_eq q hq hthere := by
    have hne : ¬ place <+: q := fun hstarts =>
      hapart.not_prefix_templates houtput (hstarts.trans hq)
    rw [entry?_prune_of_not_isPrefix hne, h.above_eq q hq hthere]

theorem directoriesAbove (h : KeepsSources l t₀ t) (hplace : l.templates.parts <+: place)
    (habove : t₀.DirectoriesAbove place) : t.DirectoriesAbove place := by
  intro q hq hne
  have hdirectory := habove q hq hne
  rcases List.prefix_or_prefix_of_prefix hq hplace with hq | hq
  · rw [h.above_eq q hq (ne_of_eq_of_ne hdirectory (by simp)), hdirectory]
  · rw [h.source_eq q hq, hdirectory]

theorem isSource_iff (h : KeepsSources l t₀ t) {directory p : Path} {suffix : String}
    (hdirectory : l.templates.parts <+: directory.parts) :
    IsSource t directory suffix p ↔ IsSource t₀ directory suffix p := by
  have hsame : ∀ names, t.IsFile (directory.parts ++ names) ↔
      t₀.IsFile (directory.parts ++ names) := fun names => by
    unfold IsFile
    rw [h.source_eq _ (hdirectory.trans (List.prefix_append ..))]
  unfold IsSource
  simp only [hsame]

/-- What is listed among the templates is what was there when the build began. -/
theorem filesIn_sources (h : KeepsSources l t₀ t) (hl : l.WellFormed) (ht₀ : t₀.WellFormed)
    (kind : RootKind) {suffix : String} {files : List Path}
    (hfiles : filesIn t (l.rootOf kind) [suffix] = .ok files) :
    files.Nodup ∧ ∀ p, p ∈ files ↔ IsSource t₀ (l.rootOf kind) suffix p := by
  have hcanonical := (hl.rootOf kind).isCanonical
  have hroot : l.templates.parts <+: (l.rootOf kind).parts := by
    rw [Layout.parts_rootOf]
    exact List.prefix_append ..
  have hthere : ∀ names, names ≠ [] → t.IsFile ((l.rootOf kind).parts ++ names) →
      t.isDirectory (l.rootOf kind) ≠ .ok false := by
    rintro names hnames ⟨content, hentry⟩
    rw [h.source_eq _ (hroot.trans (List.prefix_append ..))] at hentry
    have hdirectory := ht₀.entry?_above hnames (ne_of_eq_of_ne hentry (by simp))
    have habove := ht₀.directoriesAbove (ne_of_eq_of_ne hdirectory (by simp))
    refine isDirectory_ne_false hcanonical (h.directoriesAbove hroot habove) ?_
    rw [h.source_eq _ hroot, hdirectory]
  obtain ⟨hnodup, hmem⟩ := Folio.filesIn_sources hcanonical.not_mem h.nodup hthere hfiles
  exact ⟨hnodup, fun p => (hmem p).trans (h.isSource_iff hroot)⟩

end KeepsSources

/-! ## Emptying a directory -/

/-- A place that has no entry at or below it unless there are directories above. -/
def FileTree.ClosedAt (t : FileTree) (place : Place) : Prop :=
  ∀ q, place <+: q → t.entry? q ≠ none → t.entry? place ≠ none ∧ t.DirectoriesAbove place

theorem FileTree.ClosedAt.congr (h : t.ClosedAt place)
    (hbelow : ∀ q, place <+: q → t'.entry? q = t.entry? q)
    (habove : ∀ q, q <+: place → t.entry? q = some .directory →
      t'.entry? q = some .directory) : t'.ClosedAt place := by
  intro q hq hthere
  rw [hbelow q hq] at hthere
  obtain ⟨hplace, hdirectories⟩ := h q hq hthere
  rw [hbelow place List.prefix_rfl]
  exact ⟨hplace, fun q hq hne => habove q hq (hdirectories q hq hne)⟩

namespace Renews

variable {p : Path}

/-- Nothing but the directory and what is above it can have changed. -/
theorem entry?_eq (h : Renews p t t') (hq : ¬ p.parts <+: q) :
    t'.entry? q = t.entry? q ∨
      q <+: p.parts ∧ t.entry? q = none ∧ t'.entry? q = some .directory := by
  obtain ⟨t₁, hfirst, hadds⟩ := h
  have hsame : t₁.entry? q = t.entry? q := by
    rcases hfirst with ⟨rfl, -⟩ | rfl
    · rfl
    · exact entry?_prune_of_not_isPrefix hq
  rw [← hsame]
  exact hadds.entry?_eq q

/-- No file is left. -/
theorem not_isFile (h : Renews p t t') (hp : p.IsCanonical) (hclosed : t.ClosedAt p.parts)
    (hq : p.parts <+: q) : ¬ t'.IsFile q := by
  obtain ⟨t₁, hfirst, hadds⟩ := h
  rw [hadds.isFile_iff]
  rcases hfirst with ⟨rfl, hmissing⟩ | rfl
  · rintro ⟨content, hentry⟩
    obtain ⟨hthere, habove⟩ := hclosed q hq (ne_of_eq_of_ne hentry (by simp))
    exact pathExists_ne_false hp habove hthere hmissing
  · exact fun h => (isFile_prune.1 h).1 hq

end Renews

/-! ## The directories for output -/

/-- The places in the two directories that a build empties. -/
def Layout.IsOutput (l : Layout) (place : Place) : Prop :=
  l.pagesOut.parts <+: place ∨ l.componentsOut.parts <+: place

/-- The files of a build that has written files at the places `written`. -/
structure Disk (l : Layout) (t₀ : FileTree) (written : List Place) (t : FileTree) : Prop
    extends KeepsSources l t₀ t where
  isFile_of_mem : ∀ q ∈ written, t.IsFile q
  mem_of_isFile : ∀ q, l.IsOutput q → t.IsFile q → q ∈ written

namespace Disk

variable {written : List Place}

theorem addsDirectories (h : Disk l t₀ written t) (hapart : l.Apart)
    (houtput : l.output.parts <+: names) (hnames : ∀ name ∈ names, IsFileName name)
    (hadds : AddsDirectories names t t') : Disk l t₀ written t' where
  toKeepsSources := h.toKeepsSources.addsDirectories hapart houtput hnames hadds
  isFile_of_mem q hq := hadds.isFile_iff.2 (h.isFile_of_mem q hq)
  mem_of_isFile q hq hfile := h.mem_of_isFile q hq (hadds.isFile_iff.1 hfile)

theorem putFile (h : Disk l t₀ written t) (hapart : l.Apart) {content : ByteArray}
    (houtput : l.output.parts <+: place) (hnames : ∀ name ∈ place, IsFileName name) :
    Disk l t₀ (written ++ [place]) (t.put place (.file content)) where
  toKeepsSources := h.toKeepsSources.putFile hapart houtput hnames
  isFile_of_mem q hq := by
    rw [isFile_put_file (hapart.ne_nil houtput)]
    rcases List.mem_append.1 hq with hq | hq
    · exact Or.inr (h.isFile_of_mem q hq)
    · exact Or.inl (List.mem_singleton.1 hq)
  mem_of_isFile q hq hfile := by
    rw [isFile_put_file (hapart.ne_nil houtput)] at hfile
    rcases hfile with rfl | hfile
    · simp
    · exact List.mem_append_left _ (h.mem_of_isFile q hq hfile)

end Disk

/-! ## Writing pages -/

/-- Writing a page adds its place, or fails and leaves the files as they are. -/
theorem Disk.writePage_ends {written : List Place} {s : Session} {p : Path} {html : List Char}
    (h : Disk l t₀ written s.files) (hapart : l.Apart) (hleads : LeadsTo p names place)
    (hdirectory : l.output.parts <+: names) (hnames : ∀ name ∈ names, IsFileName name)
    (houtput : l.output.parts <+: place)
    (hplace : (∀ name ∈ place, Path.isUsable name) → ∀ name ∈ place, IsFileName name) :
    Ends (writePage p html) s (fun _ s' => Disk l t₀ (written ++ [place]) s'.files)
      fun _ s' => Disk l t₀ written s'.files := by
  refine (Folio.writePage_ends hleads).mono (fun _ s' hwrites => ?_) fun _ s' hadds =>
    h.addsDirectories hapart hdirectory hnames hadds
  obtain ⟨husable, t₁, content, hadds, -, hfiles⟩ := hwrites
  rw [hfiles]
  exact (h.addsDirectories hapart hdirectory hnames hadds).putFile hapart houtput (hplace husable)

/-- No place is in both directories. -/
theorem Layout.not_both_outputs (hpages : l.pagesOut.parts <+: q)
    (hcomponents : l.componentsOut.parts <+: q) : False := by
  rw [Layout.pagesOut_eq] at hpages
  rw [Layout.componentsOut_eq] at hcomponents
  have hlength : (l.output.parts ++ ["pages"]).length =
      (l.output.parts ++ ["components"]).length := by simp
  have hsame := (List.prefix_of_prefix_length_le hpages hcomponents hlength.le).eq_of_length hlength
  have hname : "pages" = "components" := List.singleton_inj.1 (List.append_cancel_left hsame)
  exact absurd hname (by decide)

end Folio
