import Folio.Proofs.Output.Comparison

/-!
# Building again

A build does not depend on what an earlier one left: old pages, old previews and an old
manifest make no difference to its outcome, nor to what is there afterwards.

The same comparison shows that a build settles.  A second build meets the stylesheet and
the previews that lie astray as the first one left them, too; it does to the tree what
has been done, and leaves it as it is.
-/

namespace Folio

open Text FileTree Folio.Action

variable {l : Layout} {t t' u u' w w' : FileTree}

/-! ## A second build -/

section

variable {ε α : Type}

end

/-- The directories that a space is expected to have lie among its templates. -/
theorem conventional_eq (hl : l.WellFormed) {p : Path} (hp : p ∈ l.conventional) :
    p.IsCanonical ∧ ∃ name, p.parts = l.templates.parts ++ [name] := by
  rcases List.mem_append.1 hp with hp | hp
  · obtain ⟨kind, -, rfl⟩ := List.mem_map.1 hp
    exact ⟨(hl.rootOf kind).isCanonical, kind.directory, Layout.parts_rootOf kind⟩
  · obtain rfl := List.mem_singleton.1 hp
    have hname : IsFileName "styles" := by decide
    have hstyles : l.styles = ⟨l.templates.anchor, l.templates.parts ++ ["styles"]⟩ :=
      Path.joinText_name hname
    rw [hstyles]
    exact ⟨(hl.templates.below fun n hn => List.mem_singleton.1 hn ▸ hname).isCanonical,
      "styles", rfl⟩

/-- A tree is comparable with itself. -/
theorem Comparable.refl {lost : Lost Failure} (ht : t.WellFormed) (hinside : l.RefersInside t) :
    Comparable l lost t t where
  left := ht
  right := ht
  source_eq _ _ := rfl
  way := .inl fun _ _ => rfl
  renewed _ _ := Iff.rfl
  beside _ _ := Iff.rfl
  matched := .inl fun _ _ _ => Iff.rfl
  conventional _ _ := .same _
  inside := hinside
  styled := .inr fun _ _ => rfl

/-- A build that returns leaves a tree that it has made from one that was cleared. -/
theorem builtAlike_of_run (hl : l.WellFormed) (hw : l.workspace.IsPlain) (hapart : l.Apart)
    (ht : t.WellFormed) (hinside : l.RefersInside t) {log : List Record} {s : Space}
    {titleSuffix : String} {r : SpaceResult} {session : Session}
    (hrun : (buildSpace s l titleSuffix ⟨t, log⟩ : Except Failure SpaceResult × Session) =
      (.ok r, session)) : BuiltAlike l t t session.files session.files := by
  have hself : Parallel .none (buildSpace s l titleSuffix) _ _ _ _ _ :=
    parallel_buildSpace hl hw hapart (.refl ht hinside) log log s titleSuffix
  rcases hself with ⟨hleft, hright, h⟩ | ⟨hleft, -, -⟩ | ⟨hlost, -⟩ | ⟨hlost, -⟩
  · rw [hrun] at hleft hright
    cases hleft
    cases hright
    exact h.1
  · rw [hrun] at hleft
    cases hleft
  · exact hlost.elim
  · exact hlost.elim

namespace BuiltAlike

theorem wellFormed (h : BuiltAlike l t t w w) : w.WellFormed := by
  obtain ⟨-, -, hfinished⟩ := h
  exact hfinished.left.wellFormed

theorem exists_cleared (h : BuiltAlike l t t w w) : ∃ u, Cleared l t u := by
  obtain ⟨hu, -, -⟩ := h
  exact ⟨_, hu⟩

theorem entry?_template (h : BuiltAlike l t t w w) (hapart : l.Apart) {q : Place}
    (hq : l.templates.parts <+: q) : w.entry? q = t.entry? q := by
  obtain ⟨hu, -, hfinished⟩ := h
  rw [hfinished.entry?_template hapart hq, hu.entry?_template hapart hq]

/-- There are directories down to the output of both builds. -/
theorem directory_output (h : BuiltAlike l t t' w w') {q : Place} (hq : q <+: l.output.parts) :
    w.entry? q = some .directory ∧ w'.entry? q = some .directory := by
  obtain ⟨hu, hu', hfinished⟩ := h
  exact ⟨hfinished.left.directory q (hu.entry?_output hq),
    hfinished.right.directory q (hu'.entry?_output hq)⟩

theorem entry?_renewed (h : BuiltAlike l t t w w) {directory : Path}
    (hdirectory : l.IsRenewed directory) : w.entry? directory.parts = some .directory := by
  obtain ⟨hu, -, hfinished⟩ := h
  refine hfinished.left.directory _ ?_
  rw [hu.entry?_eq, if_pos]
  cases hdirectory with
  | pages => exact .inl List.prefix_rfl
  | components => exact .inr List.prefix_rfl

/-- No directory is made or removed beside the directories for output. -/
theorem directory_iff (h : BuiltAlike l t t w w) {q : Place} (houtput : ¬ l.IsOutput q)
    (hway : ¬ q <+: l.output.parts) :
    t.entry? q = some .directory ↔ w.entry? q = some .directory := by
  obtain ⟨hu, -, hfinished⟩ := h
  rw [hfinished.left.directory_iff houtput, hu.entry?_of_not_isOutput houtput hway]

/-- The stylesheet that spaces share is left as it is where it can matter. -/
theorem entry?_shared (h : BuiltAlike l t t w w) (hl : l.WellFormed) (hw : l.workspace.IsPlain)
    (hapart : l.Apart) (hown : ¬ t.IsFile l.ownStylesheet.parts)
    (houtput : ¬ l.IsOutput l.sharedStylesheet.parts)
    (hway : ¬ l.sharedStylesheet.parts <+: l.output.parts) :
    w.entry? l.sharedStylesheet.parts = t.entry? l.sharedStylesheet.parts := by
  have hname : ∀ {name}, l.sharedStylesheet.parts = l.output.parts ++ [name] →
      name = stylesheetName := by
    intro name hparts
    obtain ⟨front, hfront⟩ := Layout.parts_sharedStylesheet (l := l)
    rw [hfront] at hparts
    exact (List.singleton_inj.1 (List.append_inj' hparts rfl).2).symm
  obtain @⟨u, u', hu, -, hfinished⟩ := h
  have hplace := l.templates_isPrefix_ownStylesheet
  have hleaves : ¬ l.Leaves u l.sharedStylesheet.parts := by
    rintro (⟨state, -, hparts⟩ | hparts | hparts | ⟨hparts, hrestyles⟩)
    · exact append_outputSuffix_ne_of (by decide) state (hname hparts)
    · exact absurd (hname hparts) (by decide)
    · exact absurd (hname hparts) (by decide)
    · rcases hrestyles with ⟨content, hcontent⟩ | hne
      · exact hown ⟨content, by rw [← hu.entry?_template hapart hplace, hcontent]⟩
      · refine hne ((Layout.isPlain_sharedStylesheet hw).isCanonical.ext
          (Layout.isPlain_stylesheetOut hl).isCanonical ?_)
        rw [hparts, Layout.parts_stylesheetOut]
  rw [Twins.entry?_left hfinished houtput hleaves, hu.entry?_of_not_isOutput houtput hway]

end BuiltAlike

/-- A tree compares with one in which the space has been built, and all that the space
has is as the build left it. -/
theorem comparable_of_built {lost : Lost Failure} (hl : l.WellFormed) (hw : l.workspace.IsPlain)
    (hapart : l.Apart) (ht : t.WellFormed) (hinside : l.RefersInside t)
    (h : BuiltAlike l t t w w) (ht' : t'.WellFormed)
    (hagree : ∀ q, l.output.parts <+: q → t'.entry? q = w.entry? q)
    (hsource : ∀ q, l.templates.parts <+: q → t.entry? q = t'.entry? q)
    (hmatched : (∀ q, ¬ l.output.parts <+: q → ¬ q <+: l.output.parts →
        (t'.entry? q = some .directory ↔ w.entry? q = some .directory)) ∨
      lost.left tooLong ∧ lost.right tooLong)
    (hconventional : ∀ p ∈ l.conventional,
      Alike lost.ofFaults (t.isDirectory p) (t'.isDirectory p))
    (hshared : ¬ l.output.parts <+: l.sharedStylesheet.parts →
      ¬ l.sharedStylesheet.parts <+: l.output.parts →
        t'.entry? l.sharedStylesheet.parts = w.entry? l.sharedStylesheet.parts) :
    Comparable l lost t t' where
  left := ht
  right := ht'
  source_eq := hsource
  way := by
    obtain ⟨u, hu⟩ := h.exists_cleared
    refine .inr ⟨fun q hq => iff_of_false ?_ ?_, .inr hu.open_way⟩
    · exact ((ht.makeDirectories_eq_none_iff hl.output).1 hu.open_way).2 q hq
    · have hthere : t'.entry? l.output.parts = some .directory := by
        rw [hagree _ List.prefix_rfl, (h.directory_output List.prefix_rfl).1]
      have hdirectory : t'.entry? q = some .directory := by
        by_cases hlast : q = l.output.parts
        · rw [hlast, hthere]
        · exact ht'.directoriesAbove (by simp [hthere]) q hq hlast
      rintro ⟨content, hcontent⟩
      rw [hdirectory] at hcontent
      cases hcontent
  renewed directory hdirectory := by
    obtain ⟨u, hu⟩ := h.exists_cleared
    refine iff_of_false (hu.not_isFile directory hdirectory) ?_
    rintro ⟨content, hcontent⟩
    rw [hagree _ hdirectory.output_isPrefix, h.entry?_renewed hdirectory] at hcontent
    cases hcontent
  beside name houtput := by
    have hway : ¬ l.output.parts ++ [name] <+: l.output.parts := fun h => by
      simpa using h.length_le
    rw [hagree _ (List.prefix_append ..)]
    exact h.directory_iff houtput hway
  matched := hmatched.imp_left fun hdirectories q houtput hway => by
    by_cases hbelow : l.output.parts <+: q
    · rw [hagree q hbelow]
      exact h.directory_iff houtput hway
    · rw [hdirectories q hbelow hway]
      exact h.directory_iff houtput hway
  conventional := hconventional
  inside := hinside
  styled := by
    by_cases hown : t.IsFile l.ownStylesheet.parts
    · exact .inl hown
    · refine .inr fun houtput hway => ?_
      rw [← h.entry?_shared hl hw hapart hown houtput hway]
      by_cases hbelow : l.output.parts <+: l.sharedStylesheet.parts
      · rw [hagree _ hbelow]
      · rw [hshared hbelow hway]

/-- What was built in a tree is left as it is when it is built again. -/
theorem entry?_of_rebuilt (h : BuiltAlike l t t' w w') {q : Place}
    (hsame : ¬ l.IsOutput q → ¬ q <+: l.output.parts → t'.entry? q = w.entry? q) :
    w'.entry? q = w.entry? q := by
  obtain ⟨hu, hu', hfinished⟩ := h
  rcases hfinished.entry?_or q with ⟨hleft, hright⟩ | ⟨-, hboth⟩
  · by_cases houtput : l.IsOutput q
    · rw [hleft, hright, hu.entry?_isOutput hu' houtput]
    · by_cases hway : q <+: l.output.parts
      · rw [hleft, hright, hu.entry?_output hway, hu'.entry?_output hway]
      · rw [hright, hu'.entry?_of_not_isOutput houtput hway, hsame houtput hway]
  · exact hboth.symm

/-! ## Trees that differ in old output alone -/

/-- Two trees that agree everywhere but in what a build puts anew in any case: in the
directories for output, which are directories if they are there, and in the files of the
manifest, which are files if they are there. -/
structure Layout.SameInput (l : Layout) (t t' : FileTree) : Prop where
  entry?_eq : ∀ q, ¬ l.IsOutput q → (∀ name ∈ [Manifest.fileName, Manifest.canvasFileName],
    q ≠ l.output.parts ++ [name]) → t.entry? q = t'.entry? q
  not_isFile : ∀ directory, l.IsRenewed directory →
    ¬ t.IsFile directory.parts ∧ ¬ t'.IsFile directory.parts
  ne_directory : ∀ name ∈ [Manifest.fileName, Manifest.canvasFileName],
    t.entry? (l.output.parts ++ [name]) ≠ some .directory ∧
      t'.entry? (l.output.parts ++ [name]) ≠ some .directory

namespace Layout.SameInput

theorem entry?_of_not_output (h : l.SameInput t t') {q : Place} (hq : ¬ l.output.parts <+: q) :
    t.entry? q = t'.entry? q := by
  refine h.entry?_eq q (fun houtput => hq (output_isPrefix_of_isOutput houtput)) ?_
  rintro name - rfl
  exact hq (List.prefix_append ..)

theorem entry?_way (h : l.SameInput t t') {q : Place} (hq : q <+: l.output.parts) :
    t.entry? q = t'.entry? q := by
  have hlength := hq.length_le
  refine h.entry?_eq q ?_ ?_
  · rintro (⟨names, rfl⟩ | ⟨names, rfl⟩)
    · rw [pagesOut_eq] at hlength
      simp at hlength
    · rw [componentsOut_eq] at hlength
      simp at hlength
  · rintro name - rfl
    simp at hlength

theorem directory_iff (h : l.SameInput t t') {q : Place} (houtput : ¬ l.IsOutput q) :
    t.entry? q = some .directory ↔ t'.entry? q = some .directory := by
  by_cases hmanifest : ∀ name ∈ [Manifest.fileName, Manifest.canvasFileName],
      q ≠ l.output.parts ++ [name]
  · rw [h.entry?_eq q houtput hmanifest]
  · simp only [not_forall, not_not] at hmanifest
    obtain ⟨name, hname, rfl⟩ := hmanifest
    exact iff_of_false (h.ne_directory name hname).1 (h.ne_directory name hname).2

theorem comparable (h : l.SameInput t t') (hl : l.WellFormed) (hapart : l.Apart)
    (ht : t.WellFormed) (ht' : t'.WellFormed) (hinside : l.RefersInside t) :
    Comparable l .none t t' where
  left := ht
  right := ht'
  source_eq q hq := h.entry?_of_not_output fun houtput =>
    hapart.not_templates_isPrefix houtput hq
  way := .inl fun q => h.entry?_way
  renewed directory hdirectory :=
    iff_of_false (h.not_isFile directory hdirectory).1 (h.not_isFile directory hdirectory).2
  beside name houtput := h.directory_iff houtput
  matched := .inl fun q houtput _ => h.directory_iff houtput
  conventional p hp := by
    obtain ⟨hcanonical, name, hparts⟩ := conventional_eq hl hp
    refine .of_eq (isDirectory_congr (stat_congr_along (.of_not_mem hcanonical.not_mem)
      fun q hq => h.entry?_of_not_output fun houtput => ?_))
    rw [hparts] at hq
    rcases List.prefix_concat_iff.1 hq with rfl | hq
    · exact hapart.not_templates_isPrefix houtput (List.prefix_append ..)
    · exact hapart.not_prefix_templates houtput hq
  inside := hinside
  styled := .inr fun houtput _ => by
    refine h.entry?_eq _ houtput fun name hname hparts => ?_
    obtain ⟨front, hfront⟩ := parts_sharedStylesheet (l := l)
    rw [hfront] at hparts
    have hsame := List.singleton_inj.1 (List.append_inj' hparts rfl).2
    revert hname
    rw [← hsame]
    decide

end Layout.SameInput

/-! ## The result of a build -/

end Folio
