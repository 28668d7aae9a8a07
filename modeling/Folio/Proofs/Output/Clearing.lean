import Folio.Proofs.Output.Rendering

/-!
# Emptying the directories for output

What a build finds in the directories for pages and previews is gone before anything is
rendered.  `Cleared l t u` says exactly what the tree is then: directories down to the
two, nothing in them, and everything else as it was.

Whether this can be done depends on no more than the names of the directories and where
there are files in the way, so it fails in both of two trees or in neither.
-/

namespace Folio

open Text FileTree Folio.Action

variable {lost : Lost Failure} {l : Layout} {t t' u u' : FileTree} {p : Path}

/-! ## One directory -/

/-- A tree with a directory made, and all that are missing above it. -/
structure Made (p : Path) (t u : FileTree) : Prop where
  wellFormed : u.WellFormed
  open_way : (t.makeDirectories p).2 = none
  entry?_eq : ∀ q, u.entry? q = if q <+: p.parts then some .directory else t.entry? q

/-- A tree with a directory made that is empty. -/
structure Renewed (p : Path) (t u : FileTree) : Prop where
  wellFormed : u.WellFormed
  not_isFile : ¬ t.IsFile p.parts
  entry?_eq : ∀ q, u.entry? q =
    if q <+: p.parts then some .directory else if p.parts <+: q then none else t.entry? q

/-- The failure of a directory that cannot be made. -/
def makingFailure (p : Path) (fault : FileFault) : Failure :=
  if (Cause.file fault).isFileFault then
    .build s!"Cannot create output directory {p}" (.file fault)
  else .raised (.file fault)

theorem ensureDirectory_eq (p : Path) (t : FileTree) (log : List Record) :
    (ensureDirectory p ⟨t, log⟩ : Except Failure Unit × Session) =
      (match (t.makeDirectories p).2 with
        | none => .ok ()
        | some fault => .error (makingFailure p fault), ⟨(t.makeDirectories p).1, log⟩) := by
  have hrun : (ensureDirectory p ⟨t, log⟩ : Except Failure Unit × Session) =
      (match (t.makeDirectories p).2 with
        | none => pure ()
        | some fault => failBuild s!"Cannot create output directory {p}" fault : Action Unit)
        ⟨(t.makeDirectories p).1, log⟩ := rfl
  rw [hrun]
  cases (t.makeDirectories p).2 <;> rfl

theorem ensureDirectory_made (hp : p.IsPlain) (ht : t.WellFormed)
    (hmake : (t.makeDirectories p).2 = none) (log : List Record) :
    ∃ u, Made p t u ∧
      (ensureDirectory p ⟨t, log⟩ : Except Failure Unit × Session) = (.ok (), ⟨u, log⟩) := by
  obtain ⟨hu, hentry⟩ := ht.entry?_of_makeDirectories hp (Prod.ext rfl hmake)
  refine ⟨_, ⟨hu, hmake, hentry⟩, ?_⟩
  rw [ensureDirectory_eq, hmake]

/-- The failure of a directory that cannot be emptied. -/
def cleaningFailure (p : Path) (fault : FileFault) : Failure :=
  if (Cause.file fault).isFileFault then
    .build s!"Cannot clean output directory {p}" (.file fault)
  else .raised (.file fault)

theorem renewDirectory_eq (p : Path) (t : FileTree) (log : List Record) :
    (renewDirectory p ⟨t, log⟩ : Except Failure Unit × Session) =
      match t.dropDirectory p with
      | .ok t => ensureDirectory p ⟨t, log⟩
      | .error fault => (.error (cleaningFailure p fault), ⟨t, log⟩) := by
  have hrun : (renewDirectory p ⟨t, log⟩ : Except Failure Unit × Session) =
      (match t.dropDirectory p with
        | .ok t => setFiles t >>= fun _ => ensureDirectory p
        | .error fault => failBuild s!"Cannot clean output directory {p}" fault >>= fun _ =>
            ensureDirectory p : Action Unit) ⟨t, log⟩ := rfl
  rw [hrun]
  cases t.dropDirectory p <;> rfl

theorem dropDirectory_eq (hp : p.IsCanonical) (habove : t.DirectoriesAbove p.parts) :
    t.dropDirectory p =
      if isTooLong p then .error .nameTooLong
      else match t.entry? p.parts with
        | none => .ok t
        | some .directory => .ok (t.prune p.parts)
        | some (.file _) => .error .notDirectory := by
  have hlocate := locate_of_directories hp habove
  unfold dropDirectory pathExists probe removeDirectory stat
  rw [hlocate]
  by_cases hlong : isTooLong p = true
  · rw [if_pos hlong, if_pos hlong]
    rfl
  · rw [if_neg hlong, if_neg hlong]
    cases hentry : t.entry? p.parts with
    | none =>
        simp [bind, Except.bind, hentry, Except.map, pure, Except.pure, throw, throwThe,
          MonadExceptOf.throw]
    | some entry =>
        cases entry <;> simp [bind, Except.bind, hentry, Except.map, pure, Except.pure, throw,
          throwThe, MonadExceptOf.throw]

/-- A directory below one that is there is emptied, unless its name is too long or it
is a file. -/
theorem renewDirectory_renewed (hp : p.IsPlain) (ht : t.WellFormed)
    (habove : t.DirectoriesAbove p.parts) (hshort : isTooLong p = false)
    (hfile : ¬ t.IsFile p.parts) (log : List Record) :
    ∃ u, Renewed p t u ∧
      (renewDirectory p ⟨t, log⟩ : Except Failure Unit × Session) = (.ok (), ⟨u, log⟩) := by
  have hway : ∀ q, q <+: p.parts → ¬ t.IsFile q := by
    rintro q hq ⟨content, hcontent⟩
    by_cases hlast : q = p.parts
    · exact hfile ⟨content, hlast ▸ hcontent⟩
    · rw [habove q hq hlast] at hcontent
      cases hcontent
  obtain ⟨t₁, hdrop, ht₁, hfiles, hentry⟩ : ∃ t₁, t.dropDirectory p = .ok t₁ ∧ t₁.WellFormed ∧
      (∀ q, q <+: p.parts → ¬ t₁.IsFile q) ∧
      ∀ q, ¬ q <+: p.parts → t₁.entry? q = if p.parts <+: q then none else t.entry? q := by
    rw [dropDirectory_eq hp.isCanonical habove, hshort, if_neg (by simp)]
    cases hthere : t.entry? p.parts with
    | none =>
        refine ⟨t, rfl, ht, hway, fun q hq => ?_⟩
        split
        · rename_i hbelow
          by_contra hne
          obtain ⟨names, rfl⟩ := hbelow
          have hnames : names ≠ [] := by
            rintro rfl
            exact hq (by simp)
          rw [ht.entry?_above hnames hne] at hthere
          cases hthere
        · rfl
    | some entry =>
        cases entry with
        | file content => exact absurd ⟨content, hthere⟩ hfile
        | directory =>
            refine ⟨t.prune p.parts, rfl, ht.prune,
              fun q hq h => hway q hq (isFile_prune.1 h).2, fun q hq => ?_⟩
            rw [entry?_prune, if_neg]
            rintro rfl
            exact hq List.nil_prefix
  obtain ⟨u, hu, hmake⟩ := ensureDirectory_made hp ht₁
    ((ht₁.makeDirectories_eq_none_iff hp).2 ⟨hshort, hfiles⟩) log
  refine ⟨u, ⟨hu.wellFormed, hfile, fun q => ?_⟩, ?_⟩
  · rw [hu.entry?_eq]
    split
    · rfl
    · rename_i hq
      rw [hentry q hq]
  · rw [renewDirectory_eq, hdrop]
    exact hmake

/-- A directory is emptied in both of two trees, or in neither. -/
theorem parallel_renewDirectory (hp : p.IsPlain) (ht : t.WellFormed) (ht' : t'.WellFormed)
    (habove : t.DirectoriesAbove p.parts) (habove' : t'.DirectoriesAbove p.parts)
    (hfile : t.IsFile p.parts ↔ t'.IsFile p.parts) (log log' : List Record) :
    Parallel lost (renewDirectory p) (renewDirectory p) ⟨t, log⟩ ⟨t', log'⟩
      (fun _ s s' => Renewed p t s.files ∧ Renewed p t' s'.files) fun _ _ => True := by
  have hfails : ∀ {t : FileTree} {fault : FileFault}, t.dropDirectory p = .error fault →
      ∀ log, (renewDirectory p ⟨t, log⟩ : Except Failure Unit × Session) =
        (.error (cleaningFailure p fault), ⟨t, log⟩) := by
    intro t fault hdrop log
    rw [renewDirectory_eq, hdrop]
  cases hlong : isTooLong p with
  | true =>
      have hdrop := fun {t : FileTree} => dropDirectory_eq (t := t) hp.isCanonical
      simp only [hlong, if_true] at hdrop
      exact .error (hfails (hdrop habove) log) (hfails (hdrop habove') log') trivial
  | false =>
      by_cases hthere : t.IsFile p.parts
      · have hdrop : ∀ {t : FileTree}, t.DirectoriesAbove p.parts → t.IsFile p.parts →
            t.dropDirectory p = .error .notDirectory := by
          rintro t habove ⟨content, hcontent⟩
          rw [dropDirectory_eq hp.isCanonical habove, hlong, if_neg (by simp), hcontent]
        exact .error (hfails (hdrop habove hthere) log)
          (hfails (hdrop habove' (hfile.1 hthere)) log') trivial
      · obtain ⟨u, hu, hrun⟩ := renewDirectory_renewed hp ht habove hlong hthere log
        obtain ⟨u', hu', hrun'⟩ :=
          renewDirectory_renewed hp ht' habove' hlong (fun h => hthere (hfile.2 h)) log'
        exact .ok hrun hrun' ⟨hu, hu'⟩

/-! ## The output directory -/

/-- The output directory is made in both of two trees or in neither, if the way there is
the same, or is open in the second tree when it is in the first. -/
theorem parallel_ensureDirectory (hp : p.IsPlain) (ht : t.WellFormed) (ht' : t'.WellFormed)
    (hway : (∀ q, q <+: p.parts → t.entry? q = t'.entry? q) ∨
      (∀ q, q <+: p.parts → (t.IsFile q ↔ t'.IsFile q)) ∧
        ((∀ e, lost.right e) ∨ (t.makeDirectories p).2 = none)) (log log' : List Record) :
    Parallel lost (ensureDirectory p) (ensureDirectory p) ⟨t, log⟩ ⟨t', log'⟩
      (fun _ s s' => Made p t s.files ∧ Made p t' s'.files) fun _ _ => True := by
  have hfails : ∀ {t : FileTree} {fault : FileFault}, (t.makeDirectories p).2 = some fault →
      ∀ log, ∃ s, (ensureDirectory p ⟨t, log⟩ : Except Failure Unit × Session) =
        (.error (makingFailure p fault), s) := by
    intro t fault hmake log
    rw [ensureDirectory_eq, hmake]
    exact ⟨_, rfl⟩
  have hmade : (t.makeDirectories p).2 = none → (t'.makeDirectories p).2 = none →
      Parallel lost (ensureDirectory p) (ensureDirectory p) ⟨t, log⟩ ⟨t', log'⟩
        (fun _ s s' => Made p t s.files ∧ Made p t' s'.files) fun _ _ => True := by
    intro hmake hmake'
    obtain ⟨u, hu, hrun⟩ := ensureDirectory_made hp ht hmake log
    obtain ⟨u', hu', hrun'⟩ := ensureDirectory_made hp ht' hmake' log'
    exact .ok hrun hrun' ⟨hu, hu'⟩
  rcases hway with hsame | ⟨hfiles, hleft⟩
  · have htogether := (makeDirectories_together
      (R := fun t t' => ∀ q, q <+: p.parts → t.entry? q = t'.entry? q) (fun h => h)
      (fun q h hq _ _ q' hq' => by rw [entry?_put, entry?_put, h q' hq'])
      (.of_not_mem hp.isCanonical.not_mem) hsame).1
    cases hmake : (t.makeDirectories p).2 with
    | none => exact hmade hmake (htogether ▸ hmake)
    | some fault =>
        obtain ⟨s, hrun⟩ := hfails hmake log
        obtain ⟨s', hrun'⟩ := hfails (htogether ▸ hmake) log'
        exact .error hrun hrun' trivial
  · have hiff : (t.makeDirectories p).2 = none ↔ (t'.makeDirectories p).2 = none := by
      rw [ht.makeDirectories_eq_none_iff hp, ht'.makeDirectories_eq_none_iff hp]
      exact and_congr_right fun _ => forall₂_congr fun q hq => not_congr (hfiles q hq)
    cases hmake : (t'.makeDirectories p).2 with
    | none => exact hmade (hiff.2 hmake) hmake
    | some fault =>
        rcases hleft with hlost | hmake'
        · obtain ⟨s', hrun'⟩ := hfails hmake log'
          exact .right (hlost _) hrun'
        · rw [hiff.1 hmake'] at hmake
          cases hmake

/-! ## Both directories -/

/-- A tree with the output directory made and its two directories emptied. -/
structure Cleared (l : Layout) (t u : FileTree) : Prop where
  wellFormed : u.WellFormed
  open_way : (t.makeDirectories l.output).2 = none
  not_isFile : ∀ directory, l.IsRenewed directory → ¬ t.IsFile directory.parts
  entry?_eq : ∀ q, u.entry? q =
    if q <+: l.pagesOut.parts ∨ q <+: l.componentsOut.parts then some .directory
    else if l.pagesOut.parts <+: q ∨ l.componentsOut.parts <+: q then none
    else t.entry? q

section

variable {t₁ t₂ t₃ : FileTree}

theorem Layout.isPrefix_pagesOut_iff {q : Place} :
    q <+: l.pagesOut.parts ↔ q = l.pagesOut.parts ∨ q <+: l.output.parts := by
  rw [Layout.pagesOut_eq]
  exact List.prefix_concat_iff

theorem Layout.isPrefix_componentsOut_iff {q : Place} :
    q <+: l.componentsOut.parts ↔ q = l.componentsOut.parts ∨ q <+: l.output.parts := by
  rw [Layout.componentsOut_eq]
  exact List.prefix_concat_iff

theorem Made.isFile_iff (h : Made l.output t t₁) {directory : Path}
    (hdirectory : l.IsRenewed directory) :
    t₁.IsFile directory.parts ↔ t.IsFile directory.parts := by
  obtain ⟨name, hparts⟩ := hdirectory.parts_eq
  have hnot : ¬ l.output.parts ++ [name] <+: l.output.parts := fun h => by
    simpa using h.length_le
  unfold FileTree.IsFile
  rw [h.entry?_eq, hparts, if_neg hnot]

theorem Renewed.isFile_iff (h : Renewed l.pagesOut t₁ t₂) :
    t₂.IsFile l.componentsOut.parts ↔ t₁.IsFile l.componentsOut.parts := by
  have hnot : ¬ l.componentsOut.parts <+: l.pagesOut.parts :=
    Layout.not_both_outputs List.prefix_rfl
  have hnot' : ¬ l.pagesOut.parts <+: l.componentsOut.parts := fun h =>
    Layout.not_both_outputs h List.prefix_rfl
  unfold FileTree.IsFile
  rw [h.entry?_eq, if_neg hnot, if_neg hnot']

theorem cleared_of_renewed (h₁ : Made l.output t t₁) (h₂ : Renewed l.pagesOut t₁ t₂)
    (h₃ : Renewed l.componentsOut t₂ t₃) : Cleared l t t₃ where
  wellFormed := h₃.wellFormed
  open_way := h₁.open_way
  not_isFile directory hdirectory hfile := by
    rw [← h₁.isFile_iff hdirectory] at hfile
    cases hdirectory with
    | pages => exact h₂.not_isFile hfile
    | components => exact h₃.not_isFile (h₂.isFile_iff.2 hfile)
  entry?_eq q := by
    rw [h₃.entry?_eq, h₂.entry?_eq, h₁.entry?_eq]
    by_cases hcomponents : q <+: l.componentsOut.parts
    · rw [if_pos hcomponents, if_pos (.inr hcomponents)]
    · rw [if_neg hcomponents]
      by_cases hpages : q <+: l.pagesOut.parts
      · have hnot : ¬ l.componentsOut.parts <+: q := fun h =>
          Layout.not_both_outputs List.prefix_rfl (h.trans hpages)
        rw [if_neg hnot, if_pos hpages, if_pos (Or.inl hpages)]
      · have houtput : ¬ q <+: l.output.parts := fun h =>
          hpages (Layout.isPrefix_pagesOut_iff.2 (.inr h))
        rw [if_neg hpages, if_neg houtput, if_neg (not_or.2 ⟨hpages, hcomponents⟩)]
        by_cases hbelow : l.componentsOut.parts <+: q
        · rw [if_pos hbelow, if_pos (.inr hbelow)]
        · rw [if_neg hbelow]
          simp only [hbelow, or_false]

/-- Above a directory for output, all is there once the output directory is made. -/
theorem directoriesAbove_of_output {directory : Path} (hdirectory : l.IsRenewed directory)
    (hmade : ∀ q, q <+: l.output.parts → t.entry? q = some .directory) :
    t.DirectoriesAbove directory.parts := by
  obtain ⟨name, hparts⟩ := hdirectory.parts_eq
  intro q hq hne
  rw [hparts] at hq hne
  exact hmade q ((List.prefix_concat_iff.1 hq).resolve_left hne)

end

/-! ## Trees from which a build does the same -/

/-- Two trees that differ in what a build does not look at: what is in the directories
for output, files beside these that are written in any case, and, unless names that are
too long are set aside, directories where the space has nothing. -/
structure Comparable (l : Layout) (lost : Lost Failure) (t t' : FileTree) : Prop where
  left : t.WellFormed
  right : t'.WellFormed
  source_eq : ∀ q, l.templates.parts <+: q → t.entry? q = t'.entry? q
  way : (∀ q, q <+: l.output.parts → t.entry? q = t'.entry? q) ∨
    (∀ q, q <+: l.output.parts → (t.IsFile q ↔ t'.IsFile q)) ∧
      ((∀ e, lost.right e) ∨ (t.makeDirectories l.output).2 = none)
  renewed : ∀ directory, l.IsRenewed directory →
    (t.IsFile directory.parts ↔ t'.IsFile directory.parts)
  beside : ∀ name, ¬ l.IsOutput (l.output.parts ++ [name]) →
    (t.entry? (l.output.parts ++ [name]) = some .directory ↔
      t'.entry? (l.output.parts ++ [name]) = some .directory)
  matched : (∀ q, ¬ l.IsOutput q → ¬ q <+: l.output.parts →
      (t.entry? q = some .directory ↔ t'.entry? q = some .directory)) ∨
    lost.left tooLong ∧ lost.right tooLong
  conventional : ∀ p ∈ l.conventional, Alike lost.ofFaults (t.isDirectory p) (t'.isDirectory p)
  inside : l.RefersInside t
  styled : t.IsFile l.ownStylesheet.parts ∨
    (¬ l.IsOutput l.sharedStylesheet.parts → ¬ l.sharedStylesheet.parts <+: l.output.parts →
      t.entry? l.sharedStylesheet.parts = t'.entry? l.sharedStylesheet.parts)

theorem parallel_prepareOutput (hl : l.WellFormed) (h : Comparable l lost t t')
    (log log' : List Record) :
    Parallel lost (prepareOutput l) (prepareOutput l) ⟨t, log⟩ ⟨t', log'⟩
      (fun _ s s' => Cleared l t s.files ∧ Cleared l t' s'.files) fun _ _ => True := by
  have hpages : l.pagesOut.IsPlain := Layout.IsRenewed.pages.isPlain hl
  have hcomponents : l.componentsOut.IsPlain := Layout.IsRenewed.components.isPlain hl
  unfold prepareOutput
  refine (parallel_ensureDirectory hl.output h.left h.right h.way log log').bind
    fun _ s₁ s₁' h₁ => ?_
  obtain ⟨hmade, hmade'⟩ := h₁
  have habove₁ : ∀ {t t₁ : FileTree}, Made l.output t t₁ →
      ∀ directory, l.IsRenewed directory → t₁.DirectoriesAbove directory.parts :=
    fun hmade directory hdirectory => directoriesAbove_of_output hdirectory fun q hq => by
      rw [hmade.entry?_eq, if_pos hq]
  refine (parallel_renewDirectory hpages hmade.wellFormed hmade'.wellFormed
    (habove₁ hmade _ .pages) (habove₁ hmade' _ .pages) ?_ s₁.log s₁'.log).bind
    fun _ s₂ s₂' h₂ => ?_
  · rw [hmade.isFile_iff .pages, hmade'.isFile_iff .pages]
    exact h.renewed _ .pages
  obtain ⟨hrenewed, hrenewed'⟩ := h₂
  have habove₂ : ∀ {t₁ t₂ : FileTree}, Renewed l.pagesOut t₁ t₂ →
      t₂.DirectoriesAbove l.componentsOut.parts :=
    fun hrenewed => directoriesAbove_of_output .components fun q hq => by
      rw [hrenewed.entry?_eq, if_pos (Layout.isPrefix_pagesOut_iff.2 (.inr hq))]
  refine (parallel_renewDirectory hcomponents hrenewed.wellFormed hrenewed'.wellFormed
    (habove₂ hrenewed) (habove₂ hrenewed') ?_ s₂.log s₂'.log).mono (fun _ s₃ s₃' h₃ => ?_)
    fun _ _ h => h
  · rw [hrenewed.isFile_iff, hrenewed'.isFile_iff, hmade.isFile_iff .components,
      hmade'.isFile_iff .components]
    exact h.renewed _ .components
  · exact ⟨cleared_of_renewed hmade hrenewed h₃.1, cleared_of_renewed hmade' hrenewed' h₃.2⟩

/-! ## Trees that have been cleared -/

namespace Cleared

theorem entry?_output (h : Cleared l t u) {q : Place} (hq : q <+: l.output.parts) :
    u.entry? q = some .directory := by
  rw [h.entry?_eq, if_pos (.inl (Layout.isPrefix_pagesOut_iff.2 (.inr hq)))]

/-- Elsewhere all is as it was. -/
theorem entry?_of_not_isOutput (h : Cleared l t u) {q : Place} (houtput : ¬ l.IsOutput q)
    (hway : ¬ q <+: l.output.parts) : u.entry? q = t.entry? q := by
  obtain ⟨hpages, hcomponents⟩ := not_or.1 houtput
  rw [h.entry?_eq, if_neg, if_neg (not_or.2 ⟨hpages, hcomponents⟩)]
  rintro (hq | hq)
  · rcases Layout.isPrefix_pagesOut_iff.1 hq with rfl | hq
    · exact hpages List.prefix_rfl
    · exact hway hq
  · rcases Layout.isPrefix_componentsOut_iff.1 hq with rfl | hq
    · exact hcomponents List.prefix_rfl
    · exact hway hq

theorem entry?_isOutput (h : Cleared l t u) (h' : Cleared l t' u') {q : Place}
    (hq : l.IsOutput q) : u.entry? q = u'.entry? q := by
  rw [h.entry?_eq, h'.entry?_eq]
  split
  · rfl
  · split
    · rfl
    · rename_i hnot
      exact absurd hq hnot

theorem entry?_template (h : Cleared l t u) (hapart : l.Apart) {q : Place}
    (hq : l.templates.parts <+: q) : u.entry? q = t.entry? q :=
  h.entry?_of_not_isOutput
    (fun houtput => hapart.not_templates_isPrefix (Layout.output_isPrefix_of_isOutput houtput) hq)
    fun hway => hapart.templates_not_isPrefix (hq.trans hway)

end Cleared

/-- Once the directories for output are emptied, two trees are ready. -/
theorem Comparable.ready (h : Comparable l lost t t') (hapart : l.Apart) (hu : Cleared l t u)
    (hu' : Cleared l t' u') : Ready l lost u u' where
  left := hu.wellFormed
  right := hu'.wellFormed
  source_eq q hq := by
    rw [hu.entry?_template hapart hq, hu'.entry?_template hapart hq, h.source_eq q hq]
  output_left := hu.entry?_output List.prefix_rfl
  output_right := hu'.entry?_output List.prefix_rfl
  emptied q hq := hu.entry?_isOutput hu' hq
  beside name := by
    by_cases houtput : l.IsOutput (l.output.parts ++ [name])
    · rw [hu.entry?_isOutput hu' houtput]
    · have hway : ¬ l.output.parts ++ [name] <+: l.output.parts := fun h => by
        simpa using h.length_le
      rw [hu.entry?_of_not_isOutput houtput hway, hu'.entry?_of_not_isOutput houtput hway]
      exact h.beside name houtput
  matched := h.matched.imp_left fun hdirectories q => by
    by_cases houtput : l.IsOutput q
    · rw [hu.entry?_isOutput hu' houtput]
    · by_cases hway : q <+: l.output.parts
      · rw [hu.entry?_output hway, hu'.entry?_output hway]
      · rw [hu.entry?_of_not_isOutput houtput hway, hu'.entry?_of_not_isOutput houtput hway]
        exact hdirectories q houtput hway
  inside := h.inside.of_source h.left hu.wellFormed fun q hq => (hu.entry?_template hapart hq).symm
  styled := by
    have hown := l.templates_isPrefix_ownStylesheet
    rcases h.styled with ⟨content, hcontent⟩ | hshared
    · left
      exact ⟨content, by rw [hu.entry?_template hapart hown, hcontent]⟩
    · right
      by_cases houtput : l.IsOutput l.sharedStylesheet.parts
      · rw [hu.entry?_isOutput hu' houtput]
      · by_cases hway : l.sharedStylesheet.parts <+: l.output.parts
        · rw [hu.entry?_output hway, hu'.entry?_output hway]
        · rw [hu.entry?_of_not_isOutput houtput hway, hu'.entry?_of_not_isOutput houtput hway]
          exact hshared houtput hway

end Folio
