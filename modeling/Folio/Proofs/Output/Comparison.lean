import Folio.Proofs.Output.Clearing

/-!
# Builds in two trees

A build of a space comes to the same in two trees that are `Comparable`: to the same
result and manifest, with the same files written.  After the directories have been
emptied the trees are edited alike until the end, when the stylesheet and the manifest
are written beside those directories.

The stylesheet is not written if it is the one that is taken: a file is not copied onto
itself.
-/

namespace Folio

open Text FileTree Folio.Action

variable {lost : Lost Failure} {l : Layout} {t t' u u' : FileTree} {F : Place → Prop}

/-! ## Looking for the directories that are expected -/

section

variable {ε α σ β : Type} {lost : Lost ε}

theorem Alike.filterM {f g : α → Except ε Bool} {xs : List α}
    (h : ∀ x ∈ xs, Alike lost (f x) (g x)) : Alike lost (xs.filterM f) (xs.filterM g) := by
  have hloop : ∀ kept : List α, Alike lost (List.filterAuxM f xs kept)
      (List.filterAuxM g xs kept) := by
    induction xs with
    | nil => exact fun _ => .same _
    | cons x rest ih =>
        obtain ⟨hfirst, hrest⟩ := List.forall_mem_cons.1 h
        intro kept
        exact hfirst.bind fun b _ _ => ih hrest _
  exact (hloop []).bind fun _ _ _ => .same _

theorem together_forIn {R : σ → σ → Prop} {f : α → ExceptT ε (StateM σ) PUnit} {xs : List α}
    (hf : ∀ x ∈ xs, Together lost R (f x) (f x)) :
    Together lost R
      (forIn xs PUnit.unit fun x _ => do f x; pure (ForInStep.yield PUnit.unit))
      (forIn xs PUnit.unit fun x _ => do f x; pure (ForInStep.yield PUnit.unit)) := by
  induction xs with
  | nil => exact together_pure _
  | cons x rest ih =>
      obtain ⟨hfirst, hrest⟩ := List.forall_mem_cons.1 hf
      rw [List.forIn_cons]
      refine Together.bind (hfirst.bind fun _ => together_pure _) fun step => ?_
      cases step with
      | done => exact together_pure _
      | yield => exact ih hrest

end

theorem together_validateSpace
    (h : ∀ p ∈ l.conventional, Alike lost.ofFaults (t.isDirectory p) (t'.isDirectory p)) :
    Together lost (Over t t') (validateSpace l) (validateSpace l) := by
  unfold validateSpace
  refine together_files_bind fun v v' hv => ?_
  obtain ⟨rfl, rfl⟩ := hv
  have hmissing : Alike lost.ofCauses (missingDirectories v l) (missingDirectories v' l) := by
    unfold missingDirectories
    exact Alike.filterM fun p hp => (h p hp).mapError.bind fun _ _ _ => .same _
  refine (togetherYields_orRaise_alike hmissing).bind fun missing _ => ?_
  exact (together_forIn fun p _ => together_warn _ _).bind fun _ => together_pure _

/-! ## Files beside the directories for output -/

namespace Layout

/-- Whether a build may write the stylesheet of the output. -/
def Restyles (l : Layout) (t : FileTree) : Prop :=
  t.IsFile l.ownStylesheet.parts ∨ l.sharedStylesheet ≠ l.stylesheetOut

/-- The places beside the directories for output where a build may write a file. -/
def Leaves (l : Layout) (t : FileTree) (q : Place) : Prop :=
  l.IsStray q ∨ q = l.output.parts ++ [Manifest.fileName] ∨
    q = l.output.parts ++ [Manifest.canvasFileName] ∨
    q = l.output.parts ++ [stylesheetName] ∧ l.Restyles t

theorem output_isPrefix_of_leaves {q : Place} (hq : l.Leaves t q) : l.output.parts <+: q := by
  rcases hq with hq | rfl | rfl | ⟨rfl, -⟩
  · exact hq.output_isPrefix
  · exact List.prefix_append ..
  · exact List.prefix_append ..
  · exact List.prefix_append ..

theorem parts_stylesheetOut : l.stylesheetOut.parts = l.output.parts ++ [stylesheetName] := by
  rw [stylesheetOut_eq]

theorem parts_sharedStylesheet :
    ∃ front, l.sharedStylesheet.parts = front ++ [stylesheetName] := by
  have hname : IsFileName stylesheetName := by decide
  unfold sharedStylesheet
  rw [Path.joinText_name hname]
  exact ⟨_, rfl⟩

theorem isPlain_ownStylesheet (hl : l.WellFormed) : l.ownStylesheet.IsPlain := by
  have hstyles : IsFileName "styles" := by decide
  have hname : IsFileName stylesheetName := by decide
  unfold ownStylesheet styles
  rw [Path.joinText_name hname, Path.joinText_name hstyles]
  refine Path.IsPlain.below (hl.templates.below fun n hn => ?_) fun n hn => ?_
  · exact List.mem_singleton.1 hn ▸ hstyles
  · exact List.mem_singleton.1 hn ▸ hname

theorem isPlain_sharedStylesheet (hw : l.workspace.IsPlain) : l.sharedStylesheet.IsPlain := by
  have hsentinel : IsFileName sentinelName := by decide
  have hstyles : IsFileName "styles" := by decide
  have hname : IsFileName stylesheetName := by decide
  unfold sharedStylesheet
  rw [Path.joinText_name hname, Path.joinText_name hstyles, Path.joinText_name hsentinel]
  refine Path.IsPlain.below (Path.IsPlain.below (hw.below fun n hn => ?_) fun n hn => ?_)
    fun n hn => ?_
  · exact List.mem_singleton.1 hn ▸ hsentinel
  · exact List.mem_singleton.1 hn ▸ hstyles
  · exact List.mem_singleton.1 hn ▸ hname

end Layout

theorem Ready.target_beside (h : Ready l lost u u') (hl : l.WellFormed) {name : String}
    (hname : IsFileName name) (hplace : F (l.output.parts ++ [name])) :
    Target l.IsOutput F u u' (l.output / name) l.output.parts (l.output.parts ++ [name]) where
  leads := by
    have hplain : (⟨l.output.anchor, l.output.parts ++ [name]⟩ : Path).IsPlain :=
      hl.output.below fun n hn => List.mem_singleton.1 hn ▸ hname
    have hleads := LeadsTo.of_not_mem hplain.isCanonical.not_mem
    rw [Path.joinText_name hname]
    rwa [List.dropLast_concat] at hleads
  last_ne := ⟨l.output.parts, name, by rw [Path.joinText_name hname], hname.2.2.1⟩
  way := ⟨hl.output.names, fun q hq => by rw [(h.way_output hq).1, (h.way_output hq).2],
    fun q hq => .inr (h.way_output hq).1⟩
  isFileName_place _ n hn := by
    rcases List.mem_append.1 hn with hn | hn
    · exact hl.output.names n hn
    · exact List.mem_singleton.1 hn ▸ hname
  edited := .inr hplace
  directory_iff := h.beside name

/-! ## The stylesheet -/

/-- Two trees that were made alike from two others by a whole build. -/
abbrev Finished (l : Layout) (u u' : FileTree) : FileTree → FileTree → Prop :=
  Twins l.IsOutput (l.Leaves u) u u'

namespace Finished

theorem source_eq (h : Finished l u u' t t') (hready : Ready l lost u u') {q : Place}
    (hq : l.templates.parts <+: q) : t.entry? q = t'.entry? q :=
  h.entry?_eq (hready.source_eq q hq)

theorem entry?_template (h : Finished l u u' t t') (hapart : l.Apart) {q : Place}
    (hq : l.templates.parts <+: q) : t.entry? q = u.entry? q :=
  Twins.entry?_left h
    (fun houtput => hapart.not_templates_isPrefix (Layout.output_isPrefix_of_isOutput houtput) hq)
    fun hleaf => hapart.not_templates_isPrefix (Layout.output_isPrefix_of_leaves hleaf) hq

theorem matched (h : Finished l u u' t t') (hready : Ready l lost u u') : Matched lost t t' :=
  hready.matched.imp_left fun hdirectories q => h.directory_iff (hdirectories q)

end Finished

/-- The same stylesheet is found in both trees. -/
theorem firstFile_stylesheet_alike (hl : l.WellFormed) (hw : l.workspace.IsPlain)
    (hapart : l.Apart) (hready : Ready l lost u u') (h : Finished l u u' t t') :
    Alike lost.ofCauses (firstFile t l.stylesheetCandidates)
      (firstFile t' l.stylesheetCandidates) := by
  have hown := (Layout.isPlain_ownStylesheet hl).isCanonical
  have hshared := (Layout.isPlain_sharedStylesheet hw).isCanonical
  have hplace := l.templates_isPrefix_ownStylesheet
  have hsource := h.source_eq hready hplace
  rcases hready.styled with ⟨content, hcontent⟩ | hsame
  · -- The space has a stylesheet, and no other is looked for.
    have hthere : t.IsFile l.ownStylesheet.parts :=
      ⟨content, by rw [h.entry?_template hapart hplace, hcontent]⟩
    show Alike lost.ofCauses (firstFile t (l.ownStylesheet :: [l.sharedStylesheet]))
      (firstFile t' (l.ownStylesheet :: [l.sharedStylesheet]))
    unfold firstFile
    rw [hown.resolved_eq]
    refine ((h.matched hready).isFile_alike h.left.wellFormed h.right.wellFormed hown
      hsource).mapError.bind fun found hfound _ => ?_
    cases found with
    | true => exact .same _
    | false =>
        have hmissing := isFile_ne_false h.left.wellFormed hown hthere
        cases hfile : t.isFile l.ownStylesheet <;> simp_all [Except.mapError]
  · refine (h.matched hready).firstFile_alike h.left.wellFormed h.right.wellFormed
      fun c hc q hq => ?_
    rcases List.mem_cons.1 hc with rfl | hc
    · rw [show l.styles / stylesheetName = l.ownStylesheet from rfl, hown.resolved_eq] at hq
      cases hq
      exact hsource
    · obtain rfl := List.mem_singleton.1 hc
      rw [show l.workspace / sentinelName / "styles" / stylesheetName = l.sharedStylesheet from rfl,
        hshared.resolved_eq] at hq
      cases hq
      exact h.entry?_eq hsame

/-- The stylesheet that is found, and why. -/
theorem stylesheet_found (hl : l.WellFormed) (hw : l.workspace.IsPlain) (ht : t.WellFormed)
    {source : Path} (hfound : firstFile t l.stylesheetCandidates = .ok (some source)) :
    source = l.ownStylesheet ∨
      source = l.sharedStylesheet ∧ ¬ t.IsFile l.ownStylesheet.parts := by
  have hown := (Layout.isPlain_ownStylesheet hl).isCanonical
  have hshared := (Layout.isPlain_sharedStylesheet hw).isCanonical
  have hrun : firstFile t (l.ownStylesheet :: [l.sharedStylesheet]) = .ok (some source) := hfound
  unfold firstFile at hrun
  rw [hown.resolved_eq] at hrun
  cases hfirst : t.isFile l.ownStylesheet with
  | error fault => simp [Except.mapError, bind, Except.bind, hfirst] at hrun
  | ok there =>
      simp only [Except.mapError, bind, Except.bind, hfirst] at hrun
      cases there with
      | true =>
          left
          cases hrun
          rfl
      | false =>
          have hrest : firstFile t [l.sharedStylesheet] = .ok (some source) := hrun
          obtain ⟨c, hc, hresolved, -⟩ := mem_of_firstFile hrest
          obtain rfl := List.mem_singleton.1 hc
          rw [hshared.resolved_eq] at hresolved
          exact .inr ⟨(Except.ok.inj hresolved).symm,
            fun hfile => isFile_ne_false ht hown hfile hfirst⟩

/-- A file is not copied onto itself. -/
theorem copyFile_self {p : Path} (hp : p.IsCanonical) (hfile : t.isFile p = .ok true) :
    t.copyFile p p = .error .sameFile := by
  obtain ⟨content, -, hstat, hlocate⟩ := stat_of_isFile hp hfile
  unfold copyFile FileTree.read
  rw [hstat, hlocate]
  simp [bind, Except.bind, pure, Except.pure, Except.toOption, throw, throwThe,
    MonadExceptOf.throw]

theorem together_copyStylesheet (hl : l.WellFormed) (hw : l.workspace.IsPlain)
    (hapart : l.Apart) (hready : Ready l lost u u') :
    Together lost (OnFiles (Finished l u u')) (copyStylesheet l) (copyStylesheet l) := by
  have hname : IsFileName stylesheetName := by decide
  have hout := (Layout.isPlain_stylesheetOut hl).isCanonical
  unfold copyStylesheet
  refine together_files_bind fun t t' h => ?_
  refine (togetherYields_orRaise_alike (firstFile_stylesheet_alike hl hw hapart hready h)).bind
    fun found hfound => ?_
  cases found with
  | none => exact (together_warn _ _).bind fun _ => together_pure _
  | some source =>
      obtain ⟨c, -, hresolved, hfile⟩ := mem_of_firstFile hfound.1
      obtain ⟨-, -, -, hfile'⟩ := mem_of_firstFile hfound.2
      have hsource : source.IsCanonical := Path.isCanonical_of_resolved hresolved
      have hplace := l.templates_isPrefix_ownStylesheet
      have hown := h.entry?_template hapart hplace
      obtain ⟨content, hentry, hstat, hlocate⟩ := stat_of_isFile hsource hfile
      obtain ⟨content', hentry', hstat', hlocate'⟩ := stat_of_isFile hsource hfile'
      have hcases := stylesheet_found hl hw h.left.wellFormed hfound.1
      have hsame : t.entry? source.parts = t'.entry? source.parts := by
        rcases hcases with rfl | ⟨rfl, hnone⟩
        · exact h.source_eq hready hplace
        · refine h.entry?_eq (hready.styled.resolve_left ?_)
          rintro ⟨content, hcontent⟩
          exact hnone ⟨content, by rw [hown, hcontent]⟩
      obtain rfl : content = content' := by
        rw [hentry, hentry'] at hsame
        exact Entry.file.inj (Option.some.inj hsame)
      by_cases hself : source = l.stylesheetOut
      · subst hself
        dsimp only
        rw [copyFile_self hout hfile, copyFile_self hout hfile']
        exact (together_warn _ _).bind fun _ => together_pure _
      · have hrestyles : l.Restyles u := by
          rcases hcases with rfl | ⟨rfl, -⟩
          · exact .inl ⟨content, by rw [← hown, hentry]⟩
          · exact .inr hself
        have htarget : Target l.IsOutput (l.Leaves u) u u' l.stylesheetOut l.output.parts
            (l.output.parts ++ [stylesheetName]) :=
          hready.target_beside hl hname (.inr (.inr (.inr ⟨rfl, hrestyles⟩)))
        rcases h.copyFile htarget hstat hstat' (hlocate.trans hlocate'.symm) with
          ⟨w, w', hcopy, hcopy', hkeep⟩ | ⟨fault, hcopy, hcopy'⟩
        · dsimp only
          rw [hcopy, hcopy']
          exact (together_setFiles hkeep).bind fun _ => together_pure _
        · dsimp only
          rw [hcopy, hcopy']
          exact (together_warn _ _).bind fun _ => together_pure _

/-! ## The manifest -/

/-- A file is read as before if nothing changed on the way to it. -/
theorem read_put_of_not_isPrefix {p : Path} {place : Place} {entry : Entry}
    (hp : p.IsCanonical) (hplace : ¬ place <+: p.parts) :
    (t.put place entry).read p = t.read p := by
  have hstat : (t.put place entry).stat p = t.stat p :=
    stat_congr_along (.of_not_mem hp.not_mem) fun q hq =>
      entry?_put_of_ne fun h => hplace (h ▸ hq)
  unfold FileTree.read
  rw [hstat]

/-- Two trees after a file of the manifest has been written, or has not. -/
structure Kept (l : Layout) (u u' t t' : FileTree) (name : String) (w w' : FileTree) : Prop
    where
  finished : Finished l u u' w w'
  read_eq : w.read (l.output / name) = w'.read (l.output / name)
  read_other : ∀ other, IsFileName other → other ≠ name →
    t.read (l.output / other) = t'.read (l.output / other) →
      w.read (l.output / other) = w'.read (l.output / other)

theorem parallel_writeFile (hl : l.WellFormed) (hready : Ready l lost u u')
    (h : Finished l u u' t t') {name : String} (hname : IsFileName name)
    (hleaf : l.Leaves u (l.output.parts ++ [name])) (d : Data.Json.Document) (count : Nat)
    (log log' : List Record) :
    Parallel lost (Manifest.writeFile l name d count) (Manifest.writeFile l name d count)
      ⟨t, log⟩ ⟨t', log'⟩ (fun _ => OnFiles (Kept l u u' t t' name)) fun _ _ => True := by
  have htarget := hready.target_beside hl hname hleaf
  have hcanonical : ∀ {other}, IsFileName other → (l.output / other).IsCanonical := by
    intro other hother
    rw [Path.joinText_name hother]
    exact (hl.output.below fun n hn => List.mem_singleton.1 hn ▸ hother).isCanonical
  have hbeside : ∀ {other}, IsFileName other → other ≠ name →
      ¬ l.output.parts ++ [name] <+: (l.output / other).parts := by
    intro other hother hne hstarts
    rw [Path.joinText_name hother] at hstarts
    have hsame := hstarts.eq_of_length (by simp)
    exact hne (List.singleton_inj.1 (List.append_cancel_left hsame)).symm
  unfold Manifest.writeFile
  generalize Data.Json.write d = text
  refine parallel_files_bind ?_
  unfold writeText
  rcases h.write htarget (String.ofList text).toUTF8 with
    ⟨hleft, hright, hkeep⟩ | ⟨fault, hleft, hright, hplace⟩
  · rw [hleft, hright]
    have hkept : Kept l u u' t t' name
        (t.put (l.output.parts ++ [name]) (.file (String.ofList text).toUTF8))
        (t'.put (l.output.parts ++ [name]) (.file (String.ofList text).toUTF8)) := by
      refine ⟨hkeep, hkeep.read_eq htarget (.inl ?_), fun other hother hne hread => ?_⟩
      · rw [entry?_put, entry?_put]
        simp
      · rw [read_put_of_not_isPrefix (hcanonical hother) (hbeside hother hne),
          read_put_of_not_isPrefix (hcanonical hother) (hbeside hother hne), hread]
    refine (parallel_setFiles hkept).bind fun _ s s' hs => ?_
    exact ((together_info _ _).bind fun _ => together_pure _).run hs
  · rw [hleft, hright]
    have hkept : Kept l u u' t t' name t t' :=
      ⟨h, h.read_eq htarget hplace, fun _ _ _ hread => hread⟩
    exact ((together_warn _ _).bind fun _ => together_pure _).run hkept

/-- Two trees in which the files of the manifest are read alike. -/
def ReadsManifest (l : Layout) (t t' : FileTree) : Prop :=
  ∀ name ∈ [Manifest.fileName, Manifest.canvasFileName],
    t.read (l.output / name) = t'.read (l.output / name)

theorem parallel_manifestWrite (hl : l.WellFormed) (hready : Ready l lost u u') {s s' : Session}
    (h : Finished l u u' s.files s'.files) {m : Manifest} (hm : m.layout = l) :
    Parallel lost m.write m.write s s'
      (fun _ => OnFiles fun t t' => Finished l u u' t t' ∧ ReadsManifest l t t')
      fun _ _ => True := by
  subst hm
  have hname : IsFileName Manifest.fileName := by decide
  have hcanvas : IsFileName Manifest.canvasFileName := by decide
  unfold Manifest.write
  refine (parallel_writeFile hl hready h hname (.inr (.inl rfl)) _ _ s.log s'.log).bind
    fun first s₁ s₁' h₁ => ?_
  refine (parallel_writeFile hl hready h₁.finished hcanvas (.inr (.inr (.inl rfl))) _ _ s₁.log
    s₁'.log).bind fun second s₂ s₂' h₂ => ?_
  refine .pure ⟨h₂.finished, fun name hmem => ?_⟩
  rcases List.mem_cons.1 hmem with rfl | hmem
  · exact h₂.read_other _ hname (by decide) h₁.read_eq
  · obtain rfl := List.mem_singleton.1 hmem
    exact h₂.read_eq

/-! ## The build of a space -/

/-- What two builds leave that began with `t` and `t'`: trees that were made alike once
the directories for output had been emptied. -/
inductive BuiltAlike (l : Layout) (t t' w w' : FileTree) : Prop
  | intro {u u' : FileTree} (left : Cleared l t u) (right : Cleared l t' u')
      (finished : Finished l u u' w w')

theorem parallel_buildOutput (hl : l.WellFormed) (hw : l.workspace.IsPlain) (hapart : l.Apart)
    (h : Comparable l lost t t') (log log' : List Record) (titleSuffix : String) :
    Parallel lost buildOutput buildOutput (Stage.start ⟨t, log⟩ l titleSuffix)
      (Stage.start ⟨t', log'⟩ l titleSuffix)
      (fun _ s s' => ∃ u u', Cleared l t u ∧ Cleared l t' u' ∧ OnStage l (Finished l u u') s s')
      fun _ _ => True := by
  have hstart : OnStage l (fun _ _ => True) (Stage.start ⟨t, log⟩ l titleSuffix)
      (Stage.start ⟨t', log'⟩ l titleSuffix) :=
    .intro (Stage.start ⟨t, log⟩ l titleSuffix) ⟨t', log'⟩ rfl rfl trivial
  have hcleared : Parallel lost (Step.act (prepareOutput l)) (Step.act (prepareOutput l)) _ _
      (fun _ s s' => True ∧ OnStage l (fun u u' => Cleared l t u ∧ Cleared l t' u') s s')
      (OnStage l fun _ _ => True) :=
    Step.parallel_act hstart (parallel_prepareOutput hl h log log') (fun _ _ _ h => ⟨trivial, h⟩)
      fun _ _ _ => trivial
  unfold buildOutput
  refine Step.parallel_layout_bind ?_
  refine (hcleared.mono (fun _ _ _ h => h) fun _ _ _ => trivial).bind fun _ s s' hs => ?_
  obtain ⟨hu, hu'⟩ := hs.2.files_related
  have hready := h.ready hapart hu hu'
  have hs : OnStage l (Aligned l s.session.files s'.session.files) s s' :=
    hs.2.of_files (.refl hu.wellFormed hu'.wellFormed)
  generalize s.session.files = u at hu hready hs
  generalize s'.session.files = u' at hu' hready hs
  refine ((together_renderPages hl hapart hready).run hs).bind fun rendered s s' hs => ?_
  refine ((together_copyStaticPages hl hapart hready rendered).run hs).bind fun _ s s' hs => ?_
  refine ((together_renderComponents hl hapart hready).run hs).bind fun index s s' hs => ?_
  refine ((Step.together_count _).run hs).bind fun _ s s' hs => ?_
  refine ((Step.together_act (together_writeIndex hl hready index)).run hs).bind
    fun _ s s' hs => ?_
  have hs : OnStage l (Finished l u u') s s' := hs.mono fun _ _ h => h.mono fun _ => .inl
  refine ((Step.together_act (together_copyStylesheet hl hw hapart hready)).run hs).bind
    fun stylesheet s s' hs => ?_
  refine ((Step.together_count _).run hs).bind fun _ s s' hs => ?_
  obtain ⟨session, hlayout, hmanifest, hfiles⟩ := hs
  exact .ok rfl rfl ⟨u, u', hu, hu', .intro s session hlayout hmanifest hfiles⟩

theorem parallel_buildSpace (hl : l.WellFormed) (hw : l.workspace.IsPlain) (hapart : l.Apart)
    (h : Comparable l lost t t') (log log' : List Record) (s : Space) (titleSuffix : String) :
    Parallel lost (buildSpace s l titleSuffix) (buildSpace s l titleSuffix) ⟨t, log⟩ ⟨t', log'⟩
      (fun _ => OnFiles fun w w' => BuiltAlike l t t' w w' ∧ ReadsManifest l w w')
      fun _ _ => True := by
  have hstart : Over t t' ⟨t, log⟩ ⟨t', log'⟩ := ⟨rfl, rfl⟩
  unfold buildSpace
  refine ((together_info _ _).run hstart).bind fun _ session session' hs => ?_
  refine ((together_validateSpace h.conventional).run hs).bind fun _ session session' hs => ?_
  obtain ⟨t, log⟩ := session
  obtain ⟨t', log'⟩ := session'
  obtain ⟨rfl, rfl⟩ := hs
  refine Step.parallel_fromStart_bind (parallel_buildOutput hl hw hapart h log log' titleSuffix)
    fun output stage stage' hstage => ?_
  obtain ⟨u, u', hu, hu', hstage⟩ := hstage
  have hready := h.ready hapart hu hu'
  obtain ⟨session, -, hmanifest, hfiles⟩ := hstage
  refine (parallel_manifestWrite hl hready hfiles hmanifest).bind fun written s s' hs => ?_
  exact .pure ⟨.intro hu hu' hs.1, hs.2⟩

end Folio
