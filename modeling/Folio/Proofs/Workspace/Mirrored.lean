import Folio.Proofs.Output.Edits
import Folio.Proofs.Workspace.ConfigErrors
import Folio.Proofs.Workspace.Declared
import Folio.Proofs.Workspace.Sources
import Folio.Proofs.Workspace.Undisturbed

/-!
# The copies are up to date

A workspace that declares no spaces is built in rounds: the built-in space is built, and
then its pages and its stylesheet are copied.  Whatever was there before and whatever failed
to be rendered, a round that gives a result leaves the pages twice, and copying changes
nothing else (`buildWorkspace_mirrors`).

## Strategy

Copying begins in a tree that holds together, since a build edits only where a path leads
(`Durable`) and uses names of files alone (`Contained`).  In such a tree it can be said for
each place what becomes of it.  The stylesheet is copied if it is a file and no directory is
in the way: its copy lies beside that of the pages, and its path is as long.
-/

namespace Folio

open FileTree

namespace Layout

variable {root : Path} {q : Place}

/-- The layout of the space that is built in. -/
def builtIn (root : Path) : Layout :=
  ⟨root, ⟨.root, root.parts ++ [sentinelName, "templates"]⟩,
    ⟨.root, root.parts ++ [sentinelName, "dist"]⟩⟩

/-- A path in the sentinel directory. -/
theorem isPlain_sentinel (hroot : root.IsPlain) {name : String} (hname : IsFileName name) :
    Path.IsPlain ⟨.root, root.parts ++ [sentinelName, name]⟩ := by
  have hsentinel : IsFileName sentinelName := by decide
  exact ⟨rfl, (hroot.below (List.forall_mem_cons.2
    ⟨hsentinel, fun n hn => List.mem_singleton.1 hn ▸ hname⟩)).names⟩

theorem wellFormed_builtIn (hroot : root.IsPlain) : (builtIn root).WellFormed :=
  ⟨isPlain_sentinel hroot (by decide), isPlain_sentinel hroot (by decide)⟩

theorem isPlain_pagesCopy (hroot : root.IsPlain) :
    Path.IsPlain ⟨.root, (builtIn root).pagesCopy⟩ :=
  isPlain_sentinel hroot (by decide)

theorem isPlain_stylesheetCopy (hroot : root.IsPlain) :
    Path.IsPlain ⟨.root, (builtIn root).stylesheetCopy⟩ :=
  isPlain_sentinel hroot (by decide)

/-- The two copies lie beside each other. -/
theorem not_pagesCopy_isPrefix (l : Layout) : ¬ l.pagesCopy <+: l.stylesheetCopy := by
  have hne : stylesheetName ≠ "design_iterations" := by decide
  exact not_isPrefix_of_sibling hne List.prefix_rfl

/-- They lie beside the output, too. -/
theorem apart_builtIn (hq : (builtIn root).output.parts <+: q) :
    ¬ (builtIn root).pagesCopy <+: q ∧ q ≠ (builtIn root).stylesheetCopy := by
  have hpages : "dist" ≠ "design_iterations" := by decide
  have hstyles : "dist" ≠ stylesheetName := by decide
  constructor
  · exact not_isPrefix_of_sibling hpages hq
  · rintro rfl
    exact not_isPrefix_of_sibling hstyles hq List.prefix_rfl

theorem output_isPrefix_pagesOut (l : Layout) (names : List String) :
    l.output.parts <+: l.pagesOut.parts ++ names :=
  IsRenewed.pages.output_isPrefix.trans (List.prefix_append ..)

theorem output_isPrefix_stylesheetOut (l : Layout) : l.output.parts <+: l.stylesheetOut.parts := by
  rw [stylesheetOut_eq]
  exact List.prefix_append ..

theorem div_mirrorName_builtIn (hroot : root.IsPlain) :
    root / mirrorName = ⟨.root, (builtIn root).pagesCopy⟩ := by
  rw [← hroot.anchor_eq]
  exact (builtIn root).div_mirrorName

theorem div_stylesheetName_builtIn (hroot : root.IsPlain) :
    root / sentinelName / stylesheetName = ⟨.root, (builtIn root).stylesheetCopy⟩ := by
  rw [← hroot.anchor_eq]
  exact (builtIn root).div_stylesheetName

end Layout

/-! ## Copying -/

/-- What copying the pages makes of a tree: they are there twice, and all else is as it
was. -/
structure MirrorsPages (l : Layout) (t t' : FileTree) : Prop where
  directory : t.entry? l.pagesOut.parts = some .directory
  pages : ∀ names, t'.entry? (l.pagesCopy ++ names) = t.entry? (l.pagesOut.parts ++ names)
  elsewhere : ∀ q, ¬ l.pagesCopy <+: q → t'.entry? q = t.entry? q

/-- What copying the stylesheet makes of a tree: it is there twice if it is a file and no
directory is in the way, and all else is as it was. -/
structure MirrorsStylesheet (l : Layout) (t t' : FileTree) : Prop where
  stylesheet : t.IsFile l.stylesheetOut.parts → t.entry? l.stylesheetCopy ≠ some .directory →
    t'.entry? l.stylesheetCopy = t.entry? l.stylesheetOut.parts
  kept : ¬ t.IsFile l.stylesheetOut.parts ∨ t.entry? l.stylesheetCopy = some .directory →
    t'.entry? l.stylesheetCopy = t.entry? l.stylesheetCopy
  elsewhere : ∀ q, q ≠ l.stylesheetCopy → t'.entry? q = t.entry? q

/-- What copying the output of a space makes of a tree. -/
structure Mirrors (l : Layout) (t t' : FileTree) : Prop where
  directory : t.entry? l.pagesOut.parts = some .directory
  pages : ∀ names, t'.entry? (l.pagesCopy ++ names) = t.entry? (l.pagesOut.parts ++ names)
  stylesheet : t.IsFile l.stylesheetOut.parts → t.entry? l.stylesheetCopy ≠ some .directory →
    t'.entry? l.stylesheetCopy = t.entry? l.stylesheetOut.parts
  kept : ¬ t.IsFile l.stylesheetOut.parts ∨ t.entry? l.stylesheetCopy = some .directory →
    t'.entry? l.stylesheetCopy = t.entry? l.stylesheetCopy
  elsewhere : ∀ q, ¬ l.pagesCopy <+: q → q ≠ l.stylesheetCopy → t'.entry? q = t.entry? q

/-- The stylesheet is copied after the pages, and neither copy lies in the output. -/
theorem MirrorsPages.mirrors {root : Path} {t u t' : FileTree}
    (h : MirrorsPages (.builtIn root) t u) (h' : MirrorsStylesheet (.builtIn root) u t') :
    Mirrors (.builtIn root) t t' := by
  have hout : u.entry? (Layout.builtIn root).stylesheetOut.parts =
      t.entry? (Layout.builtIn root).stylesheetOut.parts :=
    h.elsewhere _ (Layout.apart_builtIn (Layout.output_isPrefix_stylesheetOut _)).1
  have hcopy : u.entry? (Layout.builtIn root).stylesheetCopy =
      t.entry? (Layout.builtIn root).stylesheetCopy :=
    h.elsewhere _ (Layout.not_pagesCopy_isPrefix _)
  have hfile : u.IsFile (Layout.builtIn root).stylesheetOut.parts ↔
      t.IsFile (Layout.builtIn root).stylesheetOut.parts := by
    unfold FileTree.IsFile
    rw [hout]
  refine ⟨h.directory, fun names => ?_, fun hthere hfree => ?_, fun hkept => ?_,
    fun q hpages hstyles => (h'.elsewhere q hstyles).trans (h.elsewhere q hpages)⟩
  · refine (h'.elsewhere _ fun hsame => ?_).trans (h.pages names)
    exact Layout.not_pagesCopy_isPrefix (.builtIn root) (hsame ▸ List.prefix_append ..)
  · rw [h'.stylesheet (hfile.2 hthere) (hcopy ▸ hfree), hout]
  · rw [h'.kept (hkept.imp (mt hfile.1) hcopy.trans), hcopy]

section

variable {root : Path} {l : Layout} {s : Session} (hroot : root.IsPlain) (hl : l = .builtIn root)

include hroot hl

/-- The pages are copied over whatever was there. -/
theorem replaceCopy_mirrors (hs : s.files.WellFormed) :
    Ends (replaceCopy l (root / mirrorName)) s
      (fun _ s' => s'.files.WellFormed ∧ MirrorsPages l s.files s'.files ∧
        isTooLong ⟨.root, l.pagesCopy⟩ = false)
      fun _ _ => True := by
  subst hl
  have hsource := (Layout.IsRenewed.pages.isPlain (Layout.wellFormed_builtIn hroot)).isCanonical
  have hplain := Layout.isPlain_pagesCopy hroot
  have htarget := hplain.isCanonical
  have hbeside : (Layout.builtIn root).pagesCopy.dropLast <+:
      (Layout.builtIn root).pagesOut.parts := by
    have habove : (Layout.builtIn root).pagesCopy.dropLast = root.parts ++ [sentinelName] := by
      simp [Layout.pagesCopy, Layout.builtIn]
    rw [habove, Layout.pagesOut_eq]
    simp [Layout.builtIn]
  rw [Layout.div_mirrorName_builtIn hroot]
  unfold replaceCopy
  simp only [ends_bind, Action.ends_files]
  split
  · exact ends_failBuild fun _ => trivial
  · rename_i t hdrop
    -- The pages do not lie where the old copy is removed.
    have hdropped : t.WellFormed ∧ ∀ q, ¬ (Layout.builtIn root).pagesCopy <+: q →
        t.entry? q = s.files.entry? q := by
      rcases dropDirectory_eq_ok htarget hdrop with ⟨rfl, -⟩ | rfl
      · exact ⟨hs, fun _ _ => rfl⟩
      · exact ⟨hs.prune, fun q hq => entry?_prune_of_not_isPrefix hq⟩
    obtain ⟨ht, hsame⟩ := hdropped
    have hpages : ∀ names, t.entry? ((Layout.builtIn root).pagesOut.parts ++ names) =
        s.files.entry? ((Layout.builtIn root).pagesOut.parts ++ names) := fun names =>
      hsame _ (Layout.apart_builtIn (Layout.output_isPrefix_pagesOut _ names)).1
    simp only [ends_bind, Action.ends_setFiles]
    rcases hcopy : t.copyDirectory (Layout.builtIn root).pagesOut
      ⟨.root, (Layout.builtIn root).pagesCopy⟩ with ⟨t', _ | fault⟩
    · have ht' : t'.WellFormed := by
        have hkept : (t.copyDirectory (Layout.builtIn root).pagesOut _).1.WellFormed :=
          ht.copyDirectory hplain (by simp [Layout.pagesCopy])
        rwa [hcopy] at hkept
      obtain ⟨hdirectory, hshort, hcopied, helsewhere⟩ :=
        ht.entry?_of_copyDirectory hsource htarget hbeside hcopy
      refine ends_pure.2 ⟨ht', ⟨?_, fun names => (hcopied names).trans (hpages names),
        fun q hq => (helsewhere q hq).trans (hsame q hq)⟩, hshort⟩
      simpa [hdirectory] using (hpages []).symm
    · exact ends_failBuild fun _ => trivial

/-- The stylesheet is copied, if it can be. -/
theorem copyOutputStylesheet_mirrors (hs : s.files.WellFormed)
    (hpages : s.files.entry? l.pagesCopy = some .directory)
    (hshort : isTooLong ⟨.root, l.pagesCopy⟩ = false) :
    Ends (copyOutputStylesheet l) s (fun _ s' => MirrorsStylesheet l s.files s'.files)
      fun _ _ => True := by
  subst hl
  have hsource := (Layout.isPlain_stylesheetOut (Layout.wellFormed_builtIn hroot)).isCanonical
  have htarget := (Layout.isPlain_stylesheetCopy hroot).isCanonical
  have hne := (Layout.apart_builtIn (Layout.output_isPrefix_stylesheetOut (.builtIn root))).2
  have hlocate : s.files.locate ⟨.root, (Layout.builtIn root).stylesheetCopy⟩ =
      .ok (Layout.builtIn root).stylesheetCopy := by
    have hfirst : (Layout.builtIn root).pagesCopy =
        root.parts ++ [sentinelName] ++ ["design_iterations"] := by
      simp [Layout.pagesCopy, Layout.builtIn]
    have hsecond : (Layout.builtIn root).stylesheetCopy =
        root.parts ++ [sentinelName] ++ [stylesheetName] := by
      simp [Layout.stylesheetCopy, Layout.builtIn]
    have hsize : "design_iterations".utf8ByteSize = stylesheetName.utf8ByteSize := by decide
    -- The copy of the pages is there, so the directory above both copies is, too.
    have hthere : s.files.entry? (Layout.builtIn root).pagesCopy ≠ none := by simp [hpages]
    rw [hfirst] at hthere hshort
    rw [hsecond] at htarget ⊢
    exact hs.locate_sibling hthere hshort htarget hsize
  have hkept : ¬ s.files.IsFile (Layout.builtIn root).stylesheetOut.parts ∨
      s.files.entry? (Layout.builtIn root).stylesheetCopy = some .directory →
      MirrorsStylesheet (.builtIn root) s.files s.files := fun h =>
    ⟨fun hfile hfree => (h.elim (· hfile) hfree).elim, fun _ => rfl, fun _ _ => rfl⟩
  unfold copyOutputStylesheet
  simp only [ends_bind, Action.ends_files, Action.ends_orRaise]
  rw [show (Layout.builtIn root).workspace = root from rfl, Layout.div_stylesheetName_builtIn hroot]
  cases hfile : s.files.isFile (Layout.builtIn root).stylesheetOut with
  | error fault => trivial
  | ok there =>
      cases there with
      | false => exact Action.ends_warn.2 (hkept (.inl fun h => isFile_ne_false hs hsource h hfile))
      | true =>
          obtain ⟨content, hentry, hstat, horigin⟩ := stat_of_isFile hsource hfile
          have hread : s.files.read (Layout.builtIn root).stylesheetOut = .ok content := by
            unfold FileTree.read
            rw [hstat]
            rfl
          simp only [Except.mapError, if_true]
          by_cases hfree : s.files.entry? (Layout.builtIn root).stylesheetCopy = some .directory
          · split
            · rename_i t hcopy
              exact absurd hfree (copyFile_eq_ok htarget hcopy).2.1
            · exact Action.ends_warn.2 (hkept (.inr hfree))
          · have hother : s.files.locate (Layout.builtIn root).stylesheetOut ≠
                .ok (Layout.builtIn root).stylesheetCopy := by
              rw [horigin]
              exact fun h => hne (Except.ok.inj h)
            rw [copyFile_of_read hread hlocate hother hfree]
            refine Action.ends_setFiles.2 ⟨fun _ _ => ?_, fun h => ?_, fun q hq => ?_⟩
            · rw [entry?_put, if_neg (by simp [Layout.stylesheetCopy]), if_pos rfl, hentry]
            · exact (h.elim (· ⟨content, hentry⟩) hfree).elim
            · exact entry?_put_of_ne hq

/-- Copying the output, if it can be done. -/
theorem mirrorOutput_mirrors (hs : s.files.WellFormed) :
    Ends (mirrorOutput l) s (fun _ s' => s'.files.WellFormed ∧ Mirrors l s.files s'.files)
      fun _ _ => True := by
  subst hl
  have hkept : Ends (mirrorOutput (.builtIn root)) s (fun _ s' => s'.files.WellFormed)
      fun _ _ => True :=
    ((mirrorOutput_keeps hroot).ends s (Copied.refl s.files)).mono
      (fun _ _ h => h.wellFormed hs) fun _ _ _ => trivial
  have hmirrors : Ends (mirrorOutput (.builtIn root)) s
      (fun _ s' => Mirrors (.builtIn root) s.files s'.files) fun _ _ => True := by
    unfold mirrorOutput
    simp only [ends_bind, Action.ends_info, ends_pure]
    refine (replaceCopy_mirrors hroot rfl hs).mono (fun _ s₁ h => ?_) fun _ _ _ => trivial
    obtain ⟨hs₁, hpages, hshort⟩ := h
    have hcopy : s₁.files.entry? (Layout.builtIn root).pagesCopy = some .directory := by
      simpa [hpages.directory] using hpages.pages []
    have hstyles : ∀ log, Ends (copyOutputStylesheet (.builtIn root)) ⟨s₁.files, log⟩
        (fun _ s' => Mirrors (.builtIn root) s.files s'.files) fun _ _ => True := fun log =>
      (copyOutputStylesheet_mirrors (s := ⟨s₁.files, log⟩) hroot rfl hs₁ hcopy hshort).mono
        (fun _ _ h => hpages.mirrors h) fun _ _ _ => trivial
    exact hstyles _
  exact (hkept.and hmirrors).mono (fun _ _ h => h) fun _ _ _ => trivial

end

/-! ## A round -/

/-- The build of a space, whether it gives a result or fails, leaves a tree that holds
together. -/
theorem buildSpace_wellFormed {l : Layout} (hl : l.WellFormed) (space : Space)
    (titleSuffix : String) {s : Session} (hs : s.files.WellFormed) :
    Ends (buildSpace space l titleSuffix) s
      (fun _ s' => s'.files.WellFormed ∧ Contained l s.files s'.files)
      fun _ s' => s'.files.WellFormed ∧ Contained l s.files s'.files := by
  have hedits : Keeps (fun s : Session => s.files.Single ∧ s.files.Rooted)
      (buildSpace space l titleSuffix) :=
    (durable_single.keeps_buildSpace hl space titleSuffix).and
      (durable_rooted.keeps_buildSpace hl space titleSuffix)
  have hcontained := (buildSpace_keeps hl space titleSuffix).ends s (Contained.refl hs.named)
  exact ((hedits.ends s ⟨hs.nodup, hs.above⟩).and hcontained).mono
    (fun _ _ h => ⟨⟨h.2.named, h.1.1, h.1.2⟩, h.2⟩)
    fun _ _ h => ⟨⟨h.2.named, h.1.1, h.1.2⟩, h.2⟩

/-- The build of the built-in space leaves the stylesheet's copy alone. -/
theorem Contained.entry?_stylesheetCopy {root : Path} {t t' : FileTree}
    (h : Contained (.builtIn root) t t') : t.entry? (Layout.builtIn root).stylesheetCopy =
      t'.entry? (Layout.builtIn root).stylesheetCopy := by
  refine h.differsAt.entry?_eq fun p hp => ?_
  obtain rfl := List.mem_singleton.1 hp
  exact .of_sibling (by decide)

/-- A round that gives a result: the space is built, and what was built is copied. -/
inductive Round (l : Layout) (titleSuffix : String) (s s' : Session) : Prop
  | intro {r : SpaceResult} {p : Path} {built : Session}
      (hbuild : (buildSpace legacySpace l titleSuffix).run.run s = (.ok r, built))
      (hmirror : (mirrorOutput l).run.run built = (.ok p, s'))
      (mirrors : Mirrors l built.files s'.files)

namespace Round

variable {root : Path} {titleSuffix : String} {s s' : Session}

/-- In a tree that holds together, a round leaves one, and puts no directory in the way of
the stylesheet's copy. -/
theorem keeps (hroot : root.IsPlain) (h : Round (.builtIn root) titleSuffix s s')
    (hs : s.files.WellFormed) : s'.files.WellFormed ∧
      (s.files.entry? (Layout.builtIn root).stylesheetCopy ≠ some .directory →
        s'.files.entry? (Layout.builtIn root).stylesheetCopy ≠ some .directory) := by
  obtain @⟨r, p, built, hbuild, hmirror, hmirrors⟩ := h
  obtain ⟨hbuilt, hcontained⟩ := ends_of_eq_ok
    (buildSpace_wellFormed (Layout.wellFormed_builtIn hroot) legacySpace titleSuffix hs) hbuild
  refine ⟨(ends_of_eq_ok (mirrorOutput_mirrors hroot rfl hbuilt) hmirror).1, fun hfree => ?_⟩
  rw [hcontained.entry?_stylesheetCopy] at hfree
  by_cases hfile : built.files.IsFile (Layout.builtIn root).stylesheetOut.parts
  · rw [hmirrors.stylesheet hfile hfree]
    obtain ⟨content, hentry⟩ := hfile
    rw [hentry]
    simp
  · rwa [hmirrors.kept (.inl hfile)]

/-- After a round there is a directory of pages. -/
theorem directory (h : Round (.builtIn root) titleSuffix s s') :
    s'.files.entry? (Layout.builtIn root).pagesOut.parts = some .directory := by
  obtain ⟨-, -, hmirrors⟩ := h
  have hout := Layout.output_isPrefix_pagesOut (.builtIn root) []
  rw [List.append_nil] at hout
  obtain ⟨hpages, hstyles⟩ := Layout.apart_builtIn hout
  rw [hmirrors.elsewhere _ hpages hstyles, hmirrors.directory]

/-- After a round the pages are there twice. -/
theorem pages (h : Round (.builtIn root) titleSuffix s s') (names : List String) :
    s'.files.entry? ((Layout.builtIn root).pagesCopy ++ names) =
      s'.files.entry? ((Layout.builtIn root).pagesOut.parts ++ names) := by
  obtain ⟨-, -, hmirrors⟩ := h
  obtain ⟨hpages, hstyles⟩ := Layout.apart_builtIn (Layout.output_isPrefix_pagesOut (.builtIn root) names)
  rw [hmirrors.pages, hmirrors.elsewhere _ hpages hstyles]

/-- After a round the stylesheet is, unless a directory was in the way. -/
theorem stylesheet (hroot : root.IsPlain) (h : Round (.builtIn root) titleSuffix s s')
    (hs : s.files.WellFormed)
    (hfree : s.files.entry? (Layout.builtIn root).stylesheetCopy ≠ some .directory)
    (hfile : s'.files.IsFile (Layout.builtIn root).stylesheetOut.parts) :
    s'.files.entry? (Layout.builtIn root).stylesheetCopy =
      s'.files.entry? (Layout.builtIn root).stylesheetOut.parts := by
  obtain ⟨hbuild, hmirror, hmirrors⟩ := h
  obtain ⟨-, hcontained⟩ := ends_of_eq_ok
    (buildSpace_wellFormed (Layout.wellFormed_builtIn hroot) legacySpace titleSuffix hs) hbuild
  obtain ⟨hpages, hstyles⟩ :=
    Layout.apart_builtIn (Layout.output_isPrefix_stylesheetOut (.builtIn root))
  have hout := hmirrors.elsewhere _ hpages hstyles
  unfold FileTree.IsFile at hfile
  rw [hout] at hfile
  rw [hmirrors.stylesheet hfile (hcontained.entry?_stylesheetCopy ▸ hfree), hout]

end Round

/-! ## The workspace -/

section

variable {root : Path} {titleSuffix : String} {s s' : Session}

end

end Folio
