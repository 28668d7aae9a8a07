import Folio.Proofs.Output.Accounts
import Folio.Proofs.Output.Printing

/-!
# Every page that needs no rendering is accounted for

Such a page is skipped if its place is taken, copied, or noted as failed, and copying goes
on.  `copyStaticPage_outcome` says this of one page, and `copyStaticPages_accounts` of all
of them.

A page that cannot be read, or whose copy cannot be written, is noted.  A page whose text
cannot be printed is not: that failure is none of those that the loop expects, and it ends
the build.
-/

namespace Folio

open Text FileTree

variable {l : Layout} {t₀ t t' : FileTree} {page : Path} {s : Stage} {taken : List String}

/-! ## One copy -/

/-- Why a page is not copied. -/
inductive Uncopied (t : FileTree) (page target : Path) (e : Failure) : Prop
  | unread {cause : Cause} (hread : t.readText page = .error cause) (hcause : cause.isReadFault)
      (he : e = .raised cause)
  | unwritten {text : List Char} (hread : t.readText page = .ok text)
      (h : Unwritten t target text e)

theorem copyPage_prints {session : Session} {target : Path} (hs : session.files.WellFormed)
    (hpage : page.IsCanonical) (htarget : target.IsPlain) (hne : target.parts ≠ []) :
    Ends (copyPage page target) session
      (fun _ s' => ∃ text content, session.files.readText page = .ok text ∧
        printed text = some content ∧ isTooLong target = false ∧
        session.files.entry? target.parts ≠ some .directory ∧
        Prints target content session.files s'.files)
      fun e s' => Opened target.parent.parts session.files s'.files ∧
        Uncopied session.files page target e := by
  unfold copyPage
  simp only [ends_bind, Action.ends_files, Action.ends_orRaise]
  cases hread : session.files.readText page with
  | error cause =>
      exact ⟨⟨hs, .refl _⟩, .unread hread (isReadFault_of_readText hpage hread) rfl⟩
  | ok text =>
      refine (writePage_prints hs htarget hne).mono (fun _ s' h => ?_) fun e s' h => ?_
      · obtain ⟨content, hprint, hshort, hfree, hprints⟩ := h
        exact ⟨text, content, rfl, hprint, hshort, hfree, hprints⟩
      · exact ⟨h.1, .unwritten hread h.2⟩

/-- Why a page is noted as failed: its text cannot be read, or its copy cannot be
written. -/
def FailsToCopy (t : FileTree) (page target : Path) : Prop :=
  (∃ cause, t.readText page = .error cause) ∨ isTooLong target = true ∨
    t.entry? target.parts = some .directory

/-- Why copying a page ends the build: its directory cannot be made, or its text cannot be
printed. -/
inductive EndsCopying (t : FileTree) (page target : Path) (e : Failure) : Prop
  | uncreatable {fault : FileFault} (hfault : (t.makeDirectories target.parent).2 = some fault)
  | unprintable {text : List Char} {error : Markup.MarkupError}
      (hread : t.readText page = .ok text)
      (herror : Markup.prettify Markup.defaultWidth text = .error error)
      (he : e = .raised (.markup error))

/-- A page that is not copied either fails in a way that is noted, or ends the build. -/
theorem Uncopied.noted_or_ends {target : Path} {e : Failure} (h : Uncopied t page target e) :
    (∃ cause : Cause, e = .raised cause ∧ cause.isReadFault ∧ FailsToCopy t page target) ∨
      EndsCopying t page target e ∧
        ((∃ message cause, e = .build message cause) ∨ ∃ error, e = .raised (.markup error)) := by
  cases h with
  | @unread cause hread hcause he => exact .inl ⟨cause, he, hcause, .inl ⟨cause, hread⟩⟩
  | unwritten hread h =>
      cases h with
      | uncreatable hfault he => exact .inr ⟨.uncreatable hfault, .inl ⟨_, _, he⟩⟩
      | unprintable herror he => exact .inr ⟨.unprintable hread herror he, .inr ⟨_, he⟩⟩
      | @unwritable cause hcause hblocked he => exact .inl ⟨cause, he, hcause, .inr hblocked⟩

/-- What becomes of a page that needs no rendering. -/
inductive StaticOutcome (l : Layout) (taken : List String) (page : Path) (s s' : Stage) : Prop
  | skipped (htaken : page.textBelow l.pages ∈ taken)
      (hfiles : s'.session.files = s.session.files) (hresult : s'.result = s.result)
  | copied {text : List Char} {content : ByteArray} (hfree : page.textBelow l.pages ∉ taken)
      (hread : s.session.files.readText page = .ok text) (hprint : printed text = some content)
      (hshort : isTooLong (l.copyOut page) = false)
      (hplace : s.session.files.entry? (l.copyOut page).parts ≠ some .directory)
      (hprints : Prints (l.copyOut page) content s.session.files s'.session.files)
      (hresult : s'.result = { s.result with pagesCopied := s.result.pagesCopied + 1 })
  | failed (hfree : page.textBelow l.pages ∉ taken)
      (hfails : FailsToCopy s.session.files page (l.copyOut page))
      (hopened : Opened (l.copyOut page).parent.parts s.session.files s'.session.files)
      (hresult : s'.result = { s.result with failures := s.result.failures ++ [page] })

theorem copyStaticPage_outcome (hlayout : s.layout = l) (hs : s.session.files.WellFormed)
    (hpage : page.IsCanonical) (htarget : (l.copyOut page).IsPlain)
    (hne : (l.copyOut page).parts ≠ []) :
    Ends (copyStaticPage taken page) s
      (fun _ s' => s'.layout = l ∧ StaticOutcome l taken page s s')
      fun e _ => page.textBelow l.pages ∉ taken ∧
        EndsCopying s.session.files page (l.copyOut page) e := by
  unfold copyStaticPage
  simp only [ends_bind, Step.ends_layout]
  rw [hlayout]
  split
  · rename_i htaken
    rw [Step.ends_act, Action.ends_debug]
    exact ⟨hlayout, .skipped (List.contains_iff_mem.1 htaken) rfl rfl⟩
  · rename_i htaken
    have hfree : page.textBelow l.pages ∉ taken := fun h => htaken (List.contains_iff_mem.2 h)
    rw [ends_bind, Step.ends_attempt, Step.ends_act]
    refine (copyPage_prints hs hpage htarget hne).mono (fun _ session h => ?_)
      fun e session h => ?_
    · obtain ⟨text, content, hread, hprint, hshort, hplace, hprints⟩ := h
      simp only [ends_bind, Step.ends_act, Action.ends_info, Step.ends_count]
      exact ⟨hlayout, .copied hfree hread hprint hshort hplace hprints rfl⟩
    · obtain ⟨hopened, hwhy⟩ := h
      rcases hwhy.noted_or_ends with ⟨cause, rfl, hcause, hfails⟩ | ⟨hends, hloud⟩
      · dsimp only
        rw [if_pos hcause]
        unfold Step.noteFailure
        simp only [ends_bind, Step.ends_act, Action.ends_warn, Step.ends_count]
        exact ⟨hlayout, .failed hfree hfails hopened rfl⟩
      · -- None of the other failures is expected here.
        rcases hloud with ⟨message, cause, rfl⟩ | ⟨error, rfl⟩
        · exact ends_throw.2 ⟨hfree, hends⟩
        · exact ends_throw.2 ⟨hfree, hends⟩

/-! ## Where copies go -/

/-- A page that needs no rendering, by its names. -/
structure IsStatic (l : Layout) (t₀ : FileTree) (page : Path) (names : List String) : Prop where
  ne_nil : names ≠ []
  isFileName : ∀ name ∈ names, IsFileName name
  eq : page = ⟨l.pages.anchor, l.pages.parts ++ names⟩
  isFile : t₀.IsFile (l.pages.parts ++ names)

namespace IsStatic

variable {names names' : List String} {other : Path}

theorem of_isSource (ht₀ : t₀.Named) (hpage : IsSource t₀ l.pages outputSuffix page) :
    ∃ names, IsStatic l t₀ page names := by
  obtain ⟨init, last, hnames, -, heq, hfile⟩ := hpage.exists_names ht₀
  rw [heq] at hfile
  exact ⟨init ++ [last], by simp, hnames, heq, hfile⟩

theorem isCanonical (h : IsStatic l t₀ page names) (hl : l.WellFormed) : page.IsCanonical := by
  rw [h.eq]
  exact ((hl.rootOf .page).below h.isFileName).isCanonical

theorem copyOut_eq (h : IsStatic l t₀ page names) :
    l.copyOut page = ⟨l.pagesOut.anchor, l.pagesOut.parts ++ names⟩ := by
  unfold Layout.copyOut
  rw [h.eq]
  exact joinText_textBelow _ h.ne_nil h.isFileName

theorem isPlain_copyOut (h : IsStatic l t₀ page names) (hl : l.WellFormed) :
    (l.copyOut page).IsPlain := by
  rw [h.copyOut_eq]
  exact (Layout.IsRenewed.pages.isPlain hl).below h.isFileName

theorem copyOut_ne_nil (h : IsStatic l t₀ page names) : (l.copyOut page).parts ≠ [] := by
  rw [h.copyOut_eq]
  exact List.append_ne_nil_of_right_ne_nil _ h.ne_nil

/-- Each page has a place of its own. -/
theorem eq_of_copyOut_eq (h : IsStatic l t₀ page names) (h' : IsStatic l t₀ other names')
    (hsame : (l.copyOut page).parts = (l.copyOut other).parts) : page = other := by
  rw [h.copyOut_eq, h'.copyOut_eq] at hsame
  rw [h.eq, h'.eq, List.append_cancel_left hsame]

/-- No copy lies where another one needs a directory. -/
theorem not_copyOut_isPrefix (h : IsStatic l t₀ page names) (h' : IsStatic l t₀ other names')
    (ht₀ : t₀.WellFormed) : ¬ (l.copyOut other).parts <+: (l.copyOut page).parent.parts := by
  intro hstarts
  have hparent : (l.copyOut page).parent.parts = l.pagesOut.parts ++ names.dropLast := by
    rw [h.copyOut_eq, Path.parent]
    exact List.dropLast_append_of_ne_nil h.ne_nil
  rw [hparent, h'.copyOut_eq, List.prefix_append_right_inj] at hstarts
  obtain ⟨rest, hrest⟩ := hstarts
  obtain ⟨content, hcontent⟩ := h.isFile
  have hsplit : l.pages.parts ++ names =
      (l.pages.parts ++ names') ++ (rest ++ [names.getLast h.ne_nil]) := by
    rw [List.append_assoc, ← List.append_assoc names', hrest, List.dropLast_append_getLast]
  rw [hsplit] at hcontent
  have hdirectory := ht₀.entry?_above (by simp) (ne_of_eq_of_ne hcontent (by simp))
  obtain ⟨content', hcontent'⟩ := h'.isFile
  rw [hdirectory] at hcontent'
  cases hcontent'

end IsStatic

/-! ## All pages -/

/-- A page has a text, unless another one is copied over it before it is read. -/
def TextOrCopy (l : Layout) (t₀ : FileTree) (page : Path) (text : List Char) : Prop :=
  TextIn t₀ page text ∨
    ∃ other, IsSource t₀ l.pages outputSuffix other ∧ (l.copyOut other).parts = page.parts

/-- A copy at its place: the printed text of the page. -/
structure IsCopy (l : Layout) (t₀ : FileTree) (page : Path) (out : Place × ByteArray) :
    Prop where
  isSource : IsSource t₀ l.pages outputSuffix page
  place_eq : out.1 = (l.copyOut page).parts
  printed_text : ∃ text, TextOrCopy l t₀ page text ∧ printed text = some out.2

/-- Why a page is not copied: its path is too long, its bytes are no text, the path of the
copy is too long, or a directory is in its place. -/
def NotCopied (l : Layout) (t₀ t : FileTree) (page : Path) : Prop :=
  isTooLong page = true ∨
    (∃ content, t₀.entry? page.parts = some (.file content) ∧ textOf content = none) ∨
    isTooLong (l.copyOut page) = true ∨ t.entry? (l.copyOut page).parts = some .directory

theorem NotCopied.grows (h : NotCopied l t₀ t page) (hgrows : Grows t t') :
    NotCopied l t₀ t' page :=
  h.imp_right fun h => h.imp_right fun h => h.imp_right (hgrows.directory _)

/-- Some pages are accounted for: each was skipped, copied or noted. -/
structure StaticsAccounts (l : Layout) (t₀ : FileTree) (taken : List String) (r : BuildResult)
    (skipped copied failed : List Path) (outs : List (Place × ByteArray)) (s : Stage) : Prop where
  layout_eq : s.layout = l
  skipped_taken : ∀ page ∈ skipped, page.textBelow l.pages ∈ taken
  tried_free : ∀ page ∈ copied ++ failed, page.textBelow l.pages ∉ taken
  copies : List.Forall₂ (IsCopy l t₀) copied outs
  failed_why : ∀ page ∈ failed, NotCopied l t₀ s.session.files page
  files : Overwritten t₀ outs s.session.files
  result_eq : s.result = { r with
    pagesCopied := r.pagesCopied + copied.length
    failures := r.failures ++ failed }

/-- Why copying ends the build: the text of a page that is to be copied cannot be printed. -/
def EndsStatics (l : Layout) (t₀ : FileTree) (taken : List String) (e : Failure) : Prop :=
  ∃ page text error, IsSource t₀ l.pages outputSuffix page ∧ page.textBelow l.pages ∉ taken ∧
    TextOrCopy l t₀ page text ∧ Markup.prettify Markup.defaultWidth text = .error error ∧
    e = .raised (.markup error)

/-- All of some pages are accounted for. -/
def AccountedFor (l : Layout) (t₀ : FileTree) (taken : List String) (r : BuildResult)
    (pages : List Path) (s : Stage) : Prop :=
  ∃ skipped copied failed outs, (skipped ++ (copied ++ failed)).Perm pages ∧
    StaticsAccounts l t₀ taken r skipped copied failed outs s

namespace StaticsAccounts

variable {r : BuildResult} {skipped copied failed : List Path}
  {outs : List (Place × ByteArray)} {names : List String} {content : ByteArray} {s' : Stage}

/-- What stands at a place stood there, or is a copy. -/
theorem exists_copy (h : StaticsAccounts l t₀ taken r skipped copied failed outs s) {q : Place}
    (hq : s.session.files.bytesAt q = some content) :
    t₀.bytesAt q = some content ∨ ∃ page, IsCopy l t₀ page (q, content) := by
  rcases h.files.mem_or_bytesAt_eq hq with hmem | hfirst
  · obtain ⟨page, -, hcopy⟩ := exists_mem_of_forall₂ h.copies.flip _ hmem
    exact .inr ⟨page, hcopy⟩
  · exact .inl hfirst

/-- A directory that can be made to begin with can be made later. -/
theorem makeDirectories (h : StaticsAccounts l t₀ taken r skipped copied failed outs s)
    (hl : l.WellFormed) (ht₀ : t₀.WellFormed) (hpage : IsStatic l t₀ page names)
    (hcreate : (t₀.makeDirectories (l.copyOut page).parent).2 = none) :
    (s.session.files.makeDirectories (l.copyOut page).parent).2 = none := by
  have hplain := hpage.isPlain_copyOut hl
  have hparent : (l.copyOut page).parent.IsPlain :=
    ⟨hplain.anchor_eq, fun name hname => hplain.names name (List.dropLast_subset _ hname)⟩
  rw [ht₀.makeDirectories_eq_none_iff hparent] at hcreate
  rw [h.files.wellFormed.makeDirectories_eq_none_iff hparent]
  refine ⟨hcreate.1, fun q hq hfile => ?_⟩
  obtain ⟨content, hcontent⟩ := hfile
  rcases h.exists_copy (bytesAt_eq_some_iff.2 hcontent) with hfirst | ⟨other, hcopy⟩
  · exact hcreate.2 q hq ⟨content, bytesAt_eq_some_iff.1 hfirst⟩
  · obtain ⟨names', hother⟩ := IsStatic.of_isSource ht₀.named hcopy.isSource
    have hplace : q = (l.copyOut other).parts := hcopy.place_eq
    exact hpage.not_copyOut_isPrefix hother ht₀ (hplace ▸ hq)

/-- The text of a page that is read. -/
theorem textOrCopy (h : StaticsAccounts l t₀ taken r skipped copied failed outs s)
    (hcanonical : page.IsCanonical) {text : List Char}
    (hread : s.session.files.readText page = .ok text) : TextOrCopy l t₀ page text := by
  obtain ⟨content, hentry, htext⟩ := readText_eq_ok hcanonical hread
  rcases h.exists_copy (bytesAt_eq_some_iff.2 hentry) with hfirst | ⟨other, hcopy⟩
  · exact .inl ⟨content, bytesAt_eq_some_iff.1 hfirst, htext⟩
  · exact .inr ⟨other, hcopy.isSource, hcopy.place_eq.symm⟩

/-- A page that fails is too long, has no text, or finds no place. -/
theorem notCopied (h : StaticsAccounts l t₀ taken r skipped copied failed outs s)
    (hl : l.WellFormed) (hpage : IsStatic l t₀ page names)
    (hfails : FailsToCopy s.session.files page (l.copyOut page)) :
    NotCopied l t₀ s.session.files page := by
  rcases hfails with ⟨cause, hread⟩ | hlong | hdirectory
  · by_cases hlong : isTooLong page = true
    · exact .inl hlong
    · have hfile : s.session.files.bytesAt page.parts ≠ none := by
        obtain ⟨content, hcontent⟩ := hpage.isFile
        rw [h.files.bytesAt_eq, hpage.eq, bytesAt_eq_some_iff.2 hcontent]
        simp
      obtain ⟨content, hcontent⟩ := Option.ne_none_iff_exists'.1 hfile
      rw [h.files.wellFormed.readText_eq (hpage.isCanonical hl)
        (bytesAt_eq_some_iff.1 hcontent), if_neg hlong] at hread
      have hnone : textOf content = none := by
        cases htext : textOf content with
        | none => rfl
        | some text =>
            rw [htext] at hread
            cases hread
      rcases h.exists_copy hcontent with hfirst | ⟨other, hcopy⟩
      · exact .inr (.inl ⟨content, bytesAt_eq_some_iff.1 hfirst, hnone⟩)
      · -- A copy is a text, whatever it was made from.
        obtain ⟨text, -, hprint⟩ := hcopy.printed_text
        obtain ⟨printedText, rfl⟩ := exists_of_printed hprint
        rw [textOf_toUTF8] at hnone
        cases hnone
  · exact .inr (.inr (.inl hlong))
  · exact .inr (.inr (.inr hdirectory))

/-- One page more is accounted for. -/
theorem step (h : StaticsAccounts l t₀ taken r skipped copied failed outs s)
    (hl : l.WellFormed) (hsource : IsSource t₀ l.pages outputSuffix page)
    (hpage : IsStatic l t₀ page names) (hlayout : s'.layout = l)
    (houtcome : StaticOutcome l taken page s s') :
    StaticsAccounts l t₀ taken r (skipped ++ [page]) copied failed outs s' ∨
      (∃ out, StaticsAccounts l t₀ taken r skipped (copied ++ [page]) failed (outs ++ [out]) s') ∨
      StaticsAccounts l t₀ taken r skipped copied (failed ++ [page]) outs s' := by
  have hne := hpage.copyOut_ne_nil
  cases houtcome with
  | skipped htaken hfiles hresult =>
      refine .inl ⟨hlayout, ?_, h.tried_free, h.copies, hfiles ▸ h.failed_why, hfiles ▸ h.files,
        hresult.trans h.result_eq⟩
      exact List.forall_mem_append.2 ⟨h.skipped_taken, by simpa using htaken⟩
  | @copied text content hfree hread hprint hshort hplace hprints hresult =>
      refine .inr (.inl ⟨((l.copyOut page).parts, content), hlayout, h.skipped_taken, ?_, ?_,
        fun other hother => (h.failed_why other hother).grows (hprints.grows hne hplace),
        h.files.prints (hpage.isPlain_copyOut hl) hne hplace hprints, ?_⟩)
      · simpa [or_imp, forall_and, hfree] using h.tried_free
      · have hcopy : IsCopy l t₀ page ((l.copyOut page).parts, content) :=
          ⟨hsource, rfl, text, h.textOrCopy (hpage.isCanonical hl) hread, hprint⟩
        exact List.rel_append h.copies (.cons hcopy .nil)
      · rw [hresult, h.result_eq, List.length_append]
        rfl
  | failed hfree hfails hopened hresult =>
      refine .inr (.inr ⟨hlayout, h.skipped_taken, ?_, h.copies, ?_, h.files.opened hopened, ?_⟩)
      · simpa [or_imp, forall_and, hfree] using h.tried_free
      · refine List.forall_mem_append.2
          ⟨fun other hother => (h.failed_why other hother).grows hopened.grows, ?_⟩
        simpa using (h.notCopied hl hpage hfails).grows hopened.grows
      · rw [hresult, h.result_eq]
        simp

/-- Copying one page more accounts for it, unless its text cannot be printed. -/
theorem copyStaticPage (h : StaticsAccounts l t₀ taken r skipped copied failed outs s)
    (hl : l.WellFormed) (ht₀ : t₀.WellFormed) {done : List Path}
    (hperm : (skipped ++ (copied ++ failed)).Perm done)
    (hsource : IsSource t₀ l.pages outputSuffix page)
    (hcreate : page.textBelow l.pages ∉ taken →
      (t₀.makeDirectories (l.copyOut page).parent).2 = none) :
    Ends (Folio.copyStaticPage taken page) s
      (fun _ s' => AccountedFor l t₀ taken r (done ++ [page]) s')
      fun e _ => EndsStatics l t₀ taken e := by
  obtain ⟨names, hpage⟩ := IsStatic.of_isSource ht₀.named hsource
  have hcanonical := hpage.isCanonical hl
  refine (copyStaticPage_outcome h.layout_eq h.files.wellFormed hcanonical
    (hpage.isPlain_copyOut hl) hpage.copyOut_ne_nil).mono (fun _ s' hone => ?_) fun e _ hends => ?_
  · -- The page joins one of the three lists, so that these are still all that are done.
    have hperm' : ((skipped ++ copied) ++ failed).Perm done := by
      rwa [List.append_assoc]
    rcases h.step hl hsource hpage hone.1 hone.2 with h | ⟨out, h⟩ | h
    · exact ⟨_, _, _, _, perm_concat_left hperm page, h⟩
    · refine ⟨_, _, _, _, ?_, h⟩
      simpa only [List.append_assoc] using perm_concat_left hperm' page
    · refine ⟨_, _, _, _, ?_, h⟩
      simpa only [List.append_assoc] using perm_concat_right hperm' page
  · obtain ⟨hfree, hends⟩ := hends
    cases hends with
    | uncreatable hfault =>
        -- No copy that was made since stands in the way of a directory.
        rw [h.makeDirectories hl ht₀ hpage (hcreate hfree)] at hfault
        cases hfault
    | unprintable hread herror he =>
        exact ⟨page, _, _, hsource, hfree, h.textOrCopy hcanonical hread, herror, he⟩

/-- Every copy stands at its place. -/
theorem bytesAt_copy (h : StaticsAccounts l t₀ taken r skipped copied failed outs s)
    (ht₀ : t₀.Named) (hnodup : copied.Nodup) (hpage : page ∈ copied) :
    ∃ content, IsCopy l t₀ page ((l.copyOut page).parts, content) ∧
      s.session.files.bytesAt (l.copyOut page).parts = some content := by
  obtain ⟨⟨place, content⟩, hmem, hcopy⟩ := exists_mem_of_forall₂ h.copies page hpage
  obtain rfl : place = (l.copyOut page).parts := hcopy.place_eq
  have hplaces : outs.map Prod.fst = copied.map fun page => (l.copyOut page).parts := by
    have hboth : List.Forall₂ (· = ·) (copied.map fun page => (l.copyOut page).parts)
        (outs.map Prod.fst) := by
      rw [List.forall₂_map_left_iff, List.forall₂_map_right_iff]
      exact h.copies.imp fun _ _ hcopy => hcopy.place_eq.symm
    exact (List.forall₂_eq_eq_eq ▸ hboth).symm
  have hdistinct : (outs.map Prod.fst).Nodup := by
    rw [hplaces]
    refine List.Nodup.map_on (fun other hother other' hother' hsame => ?_) hnodup
    obtain ⟨_, -, hfirst⟩ := exists_mem_of_forall₂ h.copies other hother
    obtain ⟨_, -, hsecond⟩ := exists_mem_of_forall₂ h.copies other' hother'
    obtain ⟨_, hfirst⟩ := IsStatic.of_isSource ht₀ hfirst.isSource
    obtain ⟨_, hsecond⟩ := IsStatic.of_isSource ht₀ hsecond.isSource
    exact hfirst.eq_of_copyOut_eq hsecond hsame
  exact ⟨content, hcopy, h.files.bytesAt_of_mem hdistinct hmem⟩

end StaticsAccounts

/-- **Every page that needs no rendering is accounted for.**  If the directories of the
output can be made, then each such page is skipped because its place is taken, or copied,
its printed text coming to stand at its place, or noted as failed for a reason; each is one
of these only, and the counts tell.  Only this ends the build: the pages cannot be listed,
or the text of one cannot be printed. -/
theorem copyStaticPages_accounts (hl : l.WellFormed) {s : Stage} (hlayout : s.layout = l)
    (hfiles : s.session.files.WellFormed) (taken : List String)
    (hcreate : ∀ page, IsSource s.session.files l.pages outputSuffix page →
      page.textBelow l.pages ∉ taken →
        (s.session.files.makeDirectories (l.copyOut page).parent).2 = none) :
    Ends (copyStaticPages taken) s
      (fun _ s' => ∃ skipped copied failed,
        (skipped ++ (copied ++ failed)).Nodup ∧
        (∀ page, page ∈ skipped ++ (copied ++ failed) ↔
          IsSource s.session.files l.pages outputSuffix page) ∧
        (∀ page ∈ skipped, page.textBelow l.pages ∈ taken) ∧
        (∀ page ∈ copied ++ failed, page.textBelow l.pages ∉ taken) ∧
        (∀ page ∈ copied, ∃ content,
          IsCopy l s.session.files page ((l.copyOut page).parts, content) ∧
          s'.session.files.bytesAt (l.copyOut page).parts = some content) ∧
        (∀ page ∈ failed, NotCopied l s.session.files s'.session.files page) ∧
        s'.result = { s.result with
          pagesCopied := s.result.pagesCopied + copied.length
          failures := s.result.failures ++ failed })
      fun e _ =>
        (∃ cause, filesIn s.session.files l.pages [outputSuffix] = .error cause ∧
          e = .raised cause) ∨
        ∃ page text error, IsSource s.session.files l.pages outputSuffix page ∧
          page.textBelow l.pages ∉ taken ∧ TextOrCopy l s.session.files page text ∧
          Markup.prettify Markup.defaultWidth text = .error error ∧
          e = .raised (.markup error) := by
  unfold copyStaticPages
  simp only [ends_bind, Step.ends_layout, Step.ends_files, Step.ends_orRaise]
  rw [hlayout]
  cases hlist : filesIn s.session.files l.pages [outputSuffix] with
  | error cause => exact .inl ⟨cause, rfl, rfl⟩
  | ok pages =>
      obtain ⟨hnodup, hmem⟩ :=
        (KeepsSources.refl hfiles).filesIn_sources hl hfiles .page hlist
      have hloop : Ends (pages.forM (copyStaticPage taken)) s
          (fun _ s' => AccountedFor l s.session.files taken s.result pages s')
          fun e _ => EndsStatics l s.session.files taken e := by
        -- The pages that are done are the ones accounted for.
        refine ends_forM
          (fun done s' => AccountedFor l s.session.files taken s.result done s') ?_ ?_
        · exact ⟨[], [], [], [], .refl _, hlayout, by simp, by simp, .nil, by simp,
            .refl hfiles, by simp⟩
        · rintro done page rest s' hsplit ⟨skipped, copied, failed, outs, hperm, h⟩
          have hsource : IsSource s.session.files l.pages outputSuffix page :=
            (hmem page).1 (by simp [hsplit])
          exact h.copyStaticPage hl hfiles hperm hsource (hcreate page hsource)
      dsimp only
      refine hloop.mono (fun _ s' h => ?_) fun e _ h => .inr h
      obtain ⟨skipped, copied, failed, outs, hperm, h⟩ := h
      have hdistinct := hperm.nodup_iff.2 hnodup
      have hcopied : copied.Nodup :=
        (List.nodup_append.1 (List.nodup_append.1 hdistinct).2.1).1
      exact ⟨skipped, copied, failed, hdistinct, fun page => hperm.mem_iff.trans (hmem page),
        h.skipped_taken, h.tried_free, fun page => h.bytesAt_copy hfiles.named hcopied,
        h.failed_why, h.result_eq⟩

/-- A space with one page that needs no rendering, whose text has a marked section of a kind
that does not exist. -/
def markedFiles : FileTree :=
  ⟨[(["t"], .directory), (["t", "pages"], .directory),
    (["t", "pages", "a.html"], .file "<p>x</p><![foo[".toUTF8)]⟩

/-- The marked section cannot be printed, which ends the build. -/
theorem copyStaticPages_accounts_marked :
    Layout.small.WellFormed ∧ markedFiles.WellFormed ∧
      ∃ page text error, IsSource markedFiles Layout.small.pages outputSuffix page ∧
        TextOrCopy Layout.small markedFiles page text ∧
        Markup.prettify Markup.defaultWidth text = .error error := by
  have hl := Layout.wellFormed_small
  have hfiles : markedFiles.WellFormed := by
    refine wellFormed_of_entries (by decide) fun e he => ?_
    simp only [markedFiles, List.mem_cons, List.not_mem_nil, or_false] at he
    rcases he with rfl | rfl | rfl <;> exact ⟨by decide, rfl⟩
  let s := Stage.start ⟨markedFiles, []⟩ Layout.small defaultTitleSuffix
  have hlist : filesIn markedFiles Layout.small.pages [outputSuffix] =
      .ok [⟨.root, ["t", "pages", "a.html"]⟩] := by
    decide +kernel
  have hcreate : ∀ page, IsSource markedFiles Layout.small.pages outputSuffix page →
      page.textBelow Layout.small.pages ∉ [] →
        (markedFiles.makeDirectories (Layout.small.copyOut page).parent).2 = none := by
    intro page hpage _
    have hlisted := (KeepsSources.refl hfiles).filesIn_sources hl hfiles .page hlist
    obtain rfl := List.mem_singleton.1 ((hlisted.2 page).2 hpage)
    decide +kernel
  have hraised : (copyStaticPages [] s : Except Failure Unit × Stage).1.isOk = false := by
    decide +kernel
  refine ⟨hl, hfiles, ?_⟩
  rcases copyStaticPages_accounts hl (s := s) rfl hfiles [] hcreate with ⟨hrun, -⟩ | ⟨-, h⟩
  · rw [hrun] at hraised
    cases hraised
  · rcases h with ⟨cause, hcause, -⟩ | ⟨page, text, error, hpage, -, htext, herror, -⟩
    · have hnone : filesIn markedFiles Layout.small.pages [outputSuffix] = .error cause := hcause
      rw [hnone] at hlist
      cases hlist
    · exact ⟨page, text, error, hpage, htext, herror⟩

end Folio
