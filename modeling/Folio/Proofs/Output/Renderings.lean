import Folio.Proofs.Output.Jobs
import Folio.Proofs.Output.Printing
import Folio.Proofs.Output.Rendering

/-!
# What the templates of pages give

The templates of a space are rendered one after the other, in the order of the texts that
lead to them.  `renderings` says what they give: each reads its text and its data from the
files that were there at the start, and finds the store of templates as the one before it
left it.  `outputOf` says what comes of a rendering: bytes at a place, if it succeeds, can
be printed and can be written.

`renderPages_renders` ties a run to the two.  What stands among the output of pages are the
outputs of the renderings, the later ones over the earlier ones; the names that the run
gives are those of the places that were written; and the templates that have no output are
those that were noted as failed.

## Strategy

While pages are written, the templates stay as they are, so that a rendering is the same
from the files at the time as from those at the start.  Whether a page can be written is
asked of the tree at the time.  It makes no difference to ask the tree at the end: from
then on something stands at the place, a directory or a file, and stays what it is.
-/

namespace Folio

open Text FileTree

variable {l : Layout} {t₀ t t' : FileTree} {page target : Path} {s s' : Stage}
  {outs : List (Place × ByteArray)} {content : ByteArray} {titleSuffix : String}
  {html : Except Failure (List Char)} {store : Template.Store}

/-! ## Listing in order -/

/-- A path among the output of pages, below the names of a directory among the pages. -/
def IsPageTarget (l : Layout) (t₀ : FileTree) (target : Path) : Prop :=
  ∃ names last, (∀ name ∈ names ++ [last], IsFileName name) ∧
    target = ⟨l.pagesOut.anchor, l.pagesOut.parts ++ (names ++ [last])⟩ ∧
    t₀.entry? (l.pages.parts ++ names) = some .directory

namespace IsPageTarget

theorem isPlain (h : IsPageTarget l t₀ target) (hl : l.WellFormed) : target.IsPlain := by
  obtain ⟨names, last, hnames, rfl, -⟩ := h
  exact (Layout.IsRenewed.pages.isPlain hl).below hnames

theorem ne_nil (h : IsPageTarget l t₀ target) : target.parts ≠ [] := by
  obtain ⟨names, last, -, rfl, -⟩ := h
  simp

theorem output_isPrefix (h : IsPageTarget l t₀ target) :
    l.output.parts <+: target.parent.parts := by
  obtain ⟨names, last, -, rfl, -⟩ := h
  refine Layout.IsRenewed.pages.output_isPrefix.trans ?_
  unfold Path.parent
  rw [← List.append_assoc, List.dropLast_concat]
  exact List.prefix_append ..

end IsPageTarget

/-- The page of a template goes below the names of its directory. -/
theorem IsSource.isPageTarget_pageOut (h : IsSource t₀ l.pages templateSuffix page)
    (ht₀ : t₀.WellFormed) : IsPageTarget l t₀ (l.pageOut page) := by
  obtain ⟨names, last, hnames, hsuffix, rfl, content, hfile⟩ := h.exists_names ht₀.named
  refine ⟨names, renderedName last, fun name hname => ?_, ?_, ?_⟩
  · rcases List.mem_append.1 hname with hname | hname
    · exact hnames name (List.mem_append_left _ hname)
    · obtain rfl := List.mem_singleton.1 hname
      exact isFileName_renderedName (hnames last (by simp))
  · unfold Layout.pageOut Layout.pageName
    exact joinText_renderedName _ hnames hsuffix
  · rw [← List.append_assoc] at hfile
    exact ht₀.entry?_above (by simp) (ne_of_eq_of_ne hfile (by simp))

/-- A copy goes below the names of the page that is copied. -/
theorem IsSource.isPageTarget_copyOut (h : IsSource t₀ l.pages outputSuffix page)
    (ht₀ : t₀.WellFormed) : IsPageTarget l t₀ (l.copyOut page) := by
  obtain ⟨names, last, hnames, -, rfl, content, hfile⟩ := h.exists_names ht₀.named
  refine ⟨names, last, hnames, ?_, ?_⟩
  · unfold Layout.copyOut
    exact joinText_textBelow _ (by simp) hnames
  · rw [← List.append_assoc] at hfile
    exact ht₀.entry?_above (by simp) (ne_of_eq_of_ne hfile (by simp))

/-- A path to a page is one among the templates. -/
theorem IsSource.covers {suffix : String} (h : IsSource t₀ l.pages suffix page)
    (hl : l.WellFormed) (ht₀ : t₀.Named) : l.Covers page := by
  obtain ⟨names, last, hnames, -, heq, -⟩ := h.exists_names ht₀
  refine ⟨?_, IsSource.templates_isPrefix h⟩
  rw [heq]
  exact ((hl.rootOf .page).below hnames).isCanonical.not_mem

/-! ## Filling the output of pages -/

/-- The tree of a build that began with the tree `t₀` and has written `outs` among the
output of pages: the templates are as they were, and each directory there is made after one
among the pages. -/
structure Filled (l : Layout) (t₀ : FileTree) (outs : List (Place × ByteArray)) (t : FileTree) :
    Prop extends KeepsSources l t₀ t, Overwritten t₀ outs t where
  directory : ∀ names, names ≠ [] → t.entry? (l.pagesOut.parts ++ names) = some .directory →
    t₀.entry? (l.pages.parts ++ names) = some .directory

namespace Filled

theorem refl (ht₀ : t₀.WellFormed)
    (hempty : ∀ names, names ≠ [] → t₀.entry? (l.pagesOut.parts ++ names) = none) :
    Filled l t₀ [] t₀ where
  toKeepsSources := .refl ht₀
  toOverwritten := .refl ht₀
  directory names hnames hentry := by
    rw [hempty names hnames] at hentry
    cases hentry

theorem opened (h : Filled l t₀ outs t) (hl : l.WellFormed) (hapart : l.Apart)
    (ht₀ : t₀.WellFormed) (htarget : IsPageTarget l t₀ target)
    (hopened : Opened target.parent.parts t t') : Filled l t₀ outs t' where
  toKeepsSources := h.toKeepsSources.addsDirectories hapart htarget.output_isPrefix
    (fun name hname => (htarget.isPlain hl).names name (List.dropLast_subset _ hname)) hopened.adds
  toOverwritten := h.toOverwritten.opened hopened
  directory names hnames hentry := by
    rcases hopened.adds.entry?_eq (l.pagesOut.parts ++ names) with hsame | ⟨hstarts, -, -⟩
    · exact h.directory names hnames (hsame ▸ hentry)
    · -- A directory that was made is on the way to the place.
      obtain ⟨above, last, -, rfl, hthere⟩ := htarget
      unfold Path.parent at hstarts
      rw [← List.append_assoc, List.dropLast_concat, List.prefix_append_right_inj] at hstarts
      obtain ⟨rest, rfl⟩ := hstarts
      rw [← List.append_assoc] at hthere
      rcases List.eq_nil_or_concat rest with rfl | ⟨init, name, rfl⟩
      · rwa [List.append_nil] at hthere
      · exact ht₀.entry?_above (by simp) (ne_of_eq_of_ne hthere (by simp))

theorem prints (h : Filled l t₀ outs t) (hl : l.WellFormed) (hapart : l.Apart)
    (ht₀ : t₀.WellFormed) (htarget : IsPageTarget l t₀ target)
    (hfree : t.entry? target.parts ≠ some .directory) (hprints : Prints target content t t') :
    Filled l t₀ (outs ++ [(target.parts, content)]) t' := by
  have hplain := htarget.isPlain hl
  have hwritten := h.toOverwritten.prints hplain htarget.ne_nil hfree hprints
  obtain ⟨t₁, hopened, -, rfl⟩ := hprints
  have h₁ := h.opened hl hapart ht₀ htarget hopened
  have houtput : l.output.parts <+: target.parts :=
    htarget.output_isPrefix.trans (List.dropLast_prefix _)
  refine ⟨h₁.toKeepsSources.putFile hapart houtput hplain.names, hwritten, fun names hnames => ?_⟩
  by_cases hplace : l.pagesOut.parts ++ names = target.parts
  · rw [hplace, entry?_put, if_neg htarget.ne_nil, if_pos rfl]
    exact fun hentry => nomatch hentry
  · rw [entry?_put_of_ne hplace]
    exact h₁.directory names hnames

/-- What stands at a place stands there in the end of the list of what was written. -/
theorem bytesAt_eq_lookup (h : Filled l t₀ outs t)
    (hempty : ∀ names, names ≠ [] → t₀.entry? (l.pagesOut.parts ++ names) = none)
    {names : List String} (hnames : names ≠ []) :
    t.bytesAt (l.pagesOut.parts ++ names) = outs.reverse.lookup (l.pagesOut.parts ++ names) := by
  have hnone : t₀.bytesAt (l.pagesOut.parts ++ names) = none := by
    rw [bytesAt_eq_none_iff]
    rintro ⟨content, hentry⟩
    rw [hempty names hnames] at hentry
    cases hentry
  rw [h.bytesAt_eq, hnone, Option.or_none]

theorem sameTemplates (h : Filled l t₀ outs t) (ht₀ : t₀.WellFormed) {suffix : String}
    (hpage : IsSource t₀ l.pages suffix page) : l.SameTemplates t t₀ := by
  have hthere : t₀.entry? l.templates.parts = some .directory := by
    obtain ⟨names, last, -, -, rfl, content, hfile⟩ := hpage.exists_names ht₀.named
    have hparts : (l.rootOf .page).parts ++ (names ++ [last]) =
        l.templates.parts ++ ([RootKind.page.directory] ++ (names ++ [last])) := by
      rw [Layout.parts_rootOf, List.append_assoc]
    have hfile' : t₀.entry? ((l.rootOf .page).parts ++ (names ++ [last])) = some (.file content) :=
      hfile
    rw [hparts] at hfile'
    exact ht₀.entry?_above (by simp) (ne_of_eq_of_ne hfile' (by simp))
  refine Layout.sameTemplates_of_directory h.wellFormed ht₀ ?_ h.source_eq
  rw [h.source_eq _ List.prefix_rfl, hthere]

end Filled

/-! ## What a template gives -/

/-- A template among the pages, read, and the names that it is given. -/
def pageInput (t : FileTree) (l : Layout) (titleSuffix : String) (page : Path) :
    Except Failure (Template.ParsedTemplate × List (String × Data.Value)) := do
  let text ← (t.readText page).mapError Failure.raised
  let (_, template) ← (Template.Engine.openTemplate (loaderOf t l.pageRoots)
    (page.textBelow l.pages)).mapError fun fault => Failure.raised (.template fault)
  let data ← (frontmatterData text page.toString).outcome t
  let stylesheet := Path.relativeHref Path.top (l.pageOut page).parent l.stylesheetOut
  return (template, pageNames titleSuffix stylesheet data)

/-- What something gives that runs among the templates of pages, and the store after it. -/
def renderingFrom (a : Template.Render (List Char)) (store : Template.Store) :
    Except Failure (List Char) × Template.Store :=
  match a store with
  | (outcome, store') => (outcome.mapError fun fault => .raised (.template fault), store')

/-- The text that a template gives for a page, and the store of templates after it. -/
def renderingOf (t : FileTree) (l : Layout) (titleSuffix : String) (page : Path)
    (store : Template.Store) : Except Failure (List Char) × Template.Store :=
  match pageInput t l titleSuffix page with
  | .error e => (.error e, store)
  | .ok (template, names) =>
      renderingFrom (Template.Engine.render (loaderOf t l.pageRoots) template names) store

/-- What comes of a rendering in a tree: bytes at a place, unless it failed, cannot be
printed, or finds a path that is too long or a directory in its place. -/
def outputOf (l : Layout) (t : FileTree) (page : Path) :
    Except Failure (List Char) → Option (Place × ByteArray)
  | .error _ => none
  | .ok html =>
      if isTooLong (l.pageOut page) || t.entry? (l.pageOut page).parts = some .directory then none
      else (printed html).map fun content => ((l.pageOut page).parts, content)

/-- The outputs of some renderings. -/
def outputs (l : Layout) (t : FileTree) (given : List (Path × Except Failure (List Char))) :
    List (Place × ByteArray) :=
  given.filterMap fun g => outputOf l t g.1 g.2

/-- The pages of some renderings that have no output. -/
def unrendered (l : Layout) (t : FileTree) (given : List (Path × Except Failure (List Char))) :
    List Path :=
  (given.filter fun g => (outputOf l t g.1 g.2).isNone).map Prod.fst

/-- The data of a text does not depend on the files. -/
theorem blind_frontmatterData (text : List Char) (source : String) :
    (frontmatterData text source).Blind := by
  unfold frontmatterData
  split
  · exact Action.blind_pure _
  · split
    · exact Action.blind_pure _
    · exact Action.blind_pure _
    · exact (Action.blind_warn _ _).bind fun _ => Action.blind_pure _
    · exact (Action.blind_warn _ _).bind fun _ => Action.blind_pure _
    · exact Action.blind_throw _

/-- A template gives the same wherever the templates are the same. -/
theorem renderingOf_congr (hsame : l.SameTemplates t t₀) (hl : l.WellFormed)
    (hpage : l.Covers page) (store : Template.Store) :
    renderingOf t l titleSuffix page store = renderingOf t₀ l titleSuffix page store := by
  have hroots : ∀ root ∈ l.pageRoots, l.Covers root := by
    intro root hroot
    obtain ⟨kind, -, rfl⟩ := List.mem_map.1 hroot
    exact covers_rootOf hl kind
  have hdata : ∀ text, (frontmatterData text page.toString).outcome t =
      (frontmatterData text page.toString).outcome t₀ :=
    fun text => (blind_frontmatterData text _).outcome_eq t t₀
  unfold renderingOf pageInput
  simp only [hsame.loaderOf hroots, hsame.readText hpage, hdata]

theorem outputOf_eq_some_iff {place : Place} :
    outputOf l t page html = some (place, content) ↔
      ∃ text, html = .ok text ∧ printed text = some content ∧
        isTooLong (l.pageOut page) = false ∧
        t.entry? (l.pageOut page).parts ≠ some .directory ∧ place = (l.pageOut page).parts := by
  unfold outputOf
  cases html with
  | error e => simp
  | ok text =>
      by_cases hblocked : isTooLong (l.pageOut page) = true ∨
          t.entry? (l.pageOut page).parts = some .directory
      · rcases hblocked with hlong | hdirectory
        · simp [hlong]
        · simp [hdirectory]
      · obtain ⟨hshort, hfree⟩ := not_or.1 hblocked
        simp [hshort, hfree, eq_comm, and_comm]

/-! ## Outputs that are decided -/

/-- Something stands in the place of a page that could be rendered and printed. -/
def Decided (l : Layout) (t : FileTree) (page : Path) (html : Except Failure (List Char)) : Prop :=
  ∀ text content, html = .ok text → printed text = some content →
    isTooLong (l.pageOut page) = false → t.entry? (l.pageOut page).parts ≠ none

theorem Decided.grows (h : Decided l t page html) (hgrows : Grows t t') :
    Decided l t' page html :=
  fun text content hhtml hprint hshort =>
    hgrows.entry?_ne_none (h text content hhtml hprint hshort)

/-- What comes of a rendering stays the same once something stands in the place. -/
theorem Decided.outputOf_eq (h : Decided l t page html) (hgrows : Grows t t') :
    outputOf l t' page html = outputOf l t page html := by
  ext ⟨place, content⟩
  rw [outputOf_eq_some_iff, outputOf_eq_some_iff]
  refine exists_congr fun text => and_congr_right fun hhtml => and_congr_right fun hprint =>
    and_congr_right fun hshort => and_congr_left fun _ => not_congr ?_
  exact hgrows.directory_iff (h text content hhtml hprint hshort)

/-- What has no output although it could be rendered and printed finds a directory. -/
theorem decided_of_outputOf_eq_none (h : outputOf l t page html = none) :
    Decided l t page html := by
  intro text content hhtml hprint hshort hnone
  have hfree : t.entry? (l.pageOut page).parts ≠ some .directory := by simp [hnone]
  have hsome := outputOf_eq_some_iff.2 ⟨text, hhtml, hprint, hshort, hfree, rfl⟩
  rw [h] at hsome
  cases hsome

/-! ## One template -/

/-- A build after a template was run. -/
def Stage.running (s : Stage) (session : Session) (store : Template.Store) : Stage :=
  { s with session := session, pageStore := store }

/-- What is not written has no output, unless a directory cannot be made. -/
theorem Unwritten.outputOf_eq_none {text : List Char} {cause : Cause}
    (h : Unwritten t (l.pageOut page) text (.raised cause)) :
    outputOf l t page (.ok text) = none := by
  rw [Option.eq_none_iff_forall_ne_some]
  rintro ⟨place, content⟩ hsome
  obtain ⟨_, ⟨⟩, hprint, hshort, hfree, -⟩ := outputOf_eq_some_iff.1 hsome
  cases h with
  | uncreatable hfault he => cases he
  | unprintable herror he =>
      unfold printed at hprint
      rw [herror] at hprint
      cases hprint
  | unwritable hcause hblocked he =>
      rcases hblocked with hlong | hdirectory
      · rw [hshort] at hlong
        cases hlong
      · exact hfree hdirectory

/-- What becomes of a build in which a rendering is to be written for a page. -/
structure Produced (l : Layout) (page : Path) (html : Except Failure (List Char))
    (store : Template.Store) (s s' : Stage) : Prop where
  running : ∃ session, s' = s.running session store
  printed : ∃ content,
    outputOf l s.session.files page html = some ((l.pageOut page).parts, content) ∧
      Prints (l.pageOut page) content s.session.files s'.session.files

/-- What becomes of it if that fails; a failure that is reported leaves no output. -/
structure Unproduced (l : Layout) (page : Path) (html : Except Failure (List Char))
    (store : Template.Store) (s : Stage) (e : Failure) (s' : Stage) : Prop where
  running : ∃ session, s' = s.running session store
  opened : Opened (l.pageOut page).parent.parts s.session.files s'.session.files
  outputOf_eq : ∀ cause, e = .raised cause → outputOf l s.session.files page html = none

theorem writeRendering_outcome {a : Template.Render (List Char)} (text : List Char) (s : Stage)
    (hs : s.session.files.WellFormed) (hp : (l.pageOut page).IsPlain)
    (hne : (l.pageOut page).parts ≠ []) (hgives : renderingFrom a s.pageStore = (html, store)) :
    Ends (do
        let html ← Step.inPages a
        Step.act (writePage (l.pageOut page) html)
        return text) s
      (fun _ => Produced l page html store s) (Unproduced l page html store s) := by
  unfold renderingFrom at hgives
  rw [ends_bind, Step.ends_inPages_iff]
  rcases hrun : (a s.pageStore : Except Template.Fault (List Char) × Template.Store) with
    ⟨fault | html, store'⟩
  · rw [hrun] at hgives
    cases hgives
    exact ⟨⟨s.session, rfl⟩, ⟨hs, .refl _⟩, fun _ _ => rfl⟩
  · rw [hrun] at hgives
    cases hgives
    dsimp only
    rw [ends_bind, Step.ends_act]
    refine (writePage_prints hs hp hne).mono (fun _ session h => ?_) fun e session h => ?_
    · obtain ⟨content, hprint, hshort, hfree, hprints⟩ := h
      exact ends_pure.2 ⟨⟨session, rfl⟩, content,
        outputOf_eq_some_iff.2 ⟨_, rfl, hprint, hshort, hfree, rfl⟩, hprints⟩
    · refine ⟨⟨session, rfl⟩, h.1, ?_⟩
      rintro cause rfl
      exact h.2.outputOf_eq_none

theorem producePage_outcome (hlayout : s.layout = l) (hs : s.session.files.WellFormed)
    (hp : (l.pageOut page).IsPlain) (hne : (l.pageOut page).parts ≠ [])
    (hgives : renderingOf s.session.files l s.titleSuffix page s.pageStore = (html, store)) :
    Ends (producePage page (page.textBelow l.pages) (l.pageOut page)) s
      (fun _ => Produced l page html store s) (Unproduced l page html store s) := by
  have hstays : Opened (l.pageOut page).parent.parts s.session.files s.session.files :=
    ⟨hs, .refl _⟩
  unfold renderingOf pageInput at hgives
  unfold producePage
  simp only [ends_bind, Step.ends_files, Step.ends_orRaise, Step.ends_layout,
    Step.ends_stylesheetHref, hlayout]
  cases hread : s.session.files.readText page with
  | error cause =>
      rw [hread] at hgives
      cases hgives
      exact ⟨⟨s.session, rfl⟩, hstays, fun _ _ => rfl⟩
  | ok text =>
      rw [hread] at hgives
      cases hopen : Template.Engine.openTemplate (loaderOf s.session.files l.pageRoots)
          (page.textBelow l.pages) with
      | error fault =>
          rw [hopen] at hgives
          cases hgives
          exact ⟨⟨s.session, rfl⟩, hstays, fun _ _ => rfl⟩
      | ok found =>
          rw [hopen] at hgives
          dsimp only [Except.mapError, bind, Except.bind] at hgives ⊢
          refine ((reads_frontmatterData text page.toString).ends_act s).mono
            (fun data s₁ h => ?_) fun e s₁ h => ?_
          · -- Only reports have been added, so the template runs as it was to be run.
            obtain ⟨hdata, log, rfl⟩ := h
            rw [hdata] at hgives
            rw [ends_get]
            have hwrite : Ends _ (s.reporting log) (fun _ => Produced l page html store s)
                (Unproduced l page html store s) :=
              (writeRendering_outcome text (s.reporting log) hs hp hne hgives).mono
                (fun _ _ h => ⟨h.running, h.printed⟩)
                fun _ _ h => ⟨h.running, h.opened, h.outputOf_eq⟩
            simp only [ends_bind] at hwrite
            exact hwrite
          · obtain ⟨hdata, log, rfl⟩ := h
            rw [hdata] at hgives
            cases hgives
            exact ⟨⟨_, rfl⟩, hstays, fun _ _ => rfl⟩

/-- Recording a page changes nothing but the manifest. -/
theorem recordPage_manifest (text : List Char) :
    Ends (recordPage page text) s
      (fun _ s' => ∃ log m, s' = { s.reporting log with manifest := m }) fun _ _ => True :=
  ends_recordPage rfl (fun _ _ _ _ m log _ _ _ _ => ⟨log, m, rfl⟩) fun _ _ _ => trivial

/-! ## All templates -/

section

variable {given : List (Path × Except Failure (List Char))}

theorem outputs_grows (hdecided : ∀ g ∈ given, Decided l t g.1 g.2) (hgrows : Grows t t') :
    outputs l t' given = outputs l t given :=
  List.filterMap_congr fun g hg => (hdecided g hg).outputOf_eq hgrows

theorem unrendered_grows (hdecided : ∀ g ∈ given, Decided l t g.1 g.2) (hgrows : Grows t t') :
    unrendered l t' given = unrendered l t given := by
  refine congrArg (List.map Prod.fst) (List.filter_congr fun g hg => ?_)
  rw [(hdecided g hg).outputOf_eq hgrows]

/-- The name of a page's output leads to its place. -/
theorem IsSource.exists_pageName (h : IsSource t₀ l.pages templateSuffix page)
    (ht₀ : t₀.Named) :
    ∃ below, (∀ name ∈ below, IsFileName name) ∧ l.pageName page = "/".intercalate below ∧
      (l.pageOut page).parts = l.pagesOut.parts ++ below := by
  obtain ⟨names, last, hnames, hsuffix, rfl, -⟩ := h.exists_names ht₀
  have hall : ∀ name ∈ names ++ [renderedName last], IsFileName name := fun name hname =>
    (List.mem_append.1 hname).elim (fun h => hnames name (List.mem_append_left _ h)) fun h =>
      List.mem_singleton.1 h ▸ isFileName_renderedName (hnames last (by simp))
  have hname : l.pageName ⟨l.pages.anchor, l.pages.parts ++ (names ++ [last])⟩ =
      "/".intercalate (names ++ [renderedName last]) := by
    unfold Layout.pageName
    rw [Path.textBelow_append (by simp), renderedName_intercalate hsuffix]
  refine ⟨_, hall, hname, ?_⟩
  unfold Layout.pageOut
  rw [hname, Path.joinText_intercalate hall]

/-- A build that has rendered some templates: `given` is what they gave, `names` lead to
what was written, and the others have been noted after `earlier`. -/
structure Renders (l : Layout) (t₀ : FileTree) (titleSuffix : String) (earlier : List Path)
    (given : List (Path × Except Failure (List Char))) (names : List String) (s : Stage) :
    Prop where
  layout_eq : s.layout = l
  titleSuffix_eq : s.titleSuffix = titleSuffix
  filled : Filled l t₀ (outputs l s.session.files given) s.session.files
  decided : ∀ g ∈ given, Decided l s.session.files g.1 g.2
  mem_names : ∀ below, (∀ name ∈ below, IsFileName name) →
    ("/".intercalate below ∈ names ↔
      l.pagesOut.parts ++ below ∈ (outputs l s.session.files given).map Prod.fst)
  failures_eq : s.result.failures = earlier ++ unrendered l s.session.files given

namespace Renders

variable {earlier : List Path} {names : List String}

/-- One page more has an output. -/
theorem rendered (h : Renders l t₀ titleSuffix earlier given names s) (hl : l.WellFormed)
    (hapart : l.Apart) (ht₀ : t₀.WellFormed) (hpage : IsSource t₀ l.pages templateSuffix page)
    (hout : outputOf l s.session.files page html = some ((l.pageOut page).parts, content))
    (hprints : Prints (l.pageOut page) content s.session.files s'.session.files)
    (hlayout : s'.layout = s.layout) (htitleSuffix : s'.titleSuffix = s.titleSuffix)
    (hfailures : s'.result.failures = s.result.failures) :
    Renders l t₀ titleSuffix earlier (given ++ [(page, html)]) (names ++ [l.pageName page]) s' := by
  obtain ⟨text, rfl, hprint, hshort, hfree, -⟩ := outputOf_eq_some_iff.1 hout
  have htarget := hpage.isPageTarget_pageOut ht₀
  have hgrows := hprints.grows htarget.ne_nil hfree
  have hentry : s'.session.files.entry? (l.pageOut page).parts = some (.file content) := by
    obtain ⟨t₁, -, -, hput⟩ := hprints
    rw [hput, entry?_put, if_neg htarget.ne_nil, if_pos rfl]
  -- Where it was written it counts, and what was given before it is decided.
  have hout' : outputOf l s'.session.files page (.ok text) =
      some ((l.pageOut page).parts, content) :=
    outputOf_eq_some_iff.2 ⟨text, rfl, hprint, hshort, by simp [hentry], rfl⟩
  have houtputs : outputs l s'.session.files (given ++ [(page, .ok text)]) =
      outputs l s.session.files given ++ [((l.pageOut page).parts, content)] := by
    rw [← outputs_grows h.decided hgrows]
    simp [outputs, hout']
  have hunrendered : unrendered l s'.session.files (given ++ [(page, .ok text)]) =
      unrendered l s.session.files given := by
    rw [← unrendered_grows h.decided hgrows]
    simp [unrendered, hout']
  refine ⟨hlayout.trans h.layout_eq, htitleSuffix.trans h.titleSuffix_eq, ?_, ?_, ?_, ?_⟩
  · rw [houtputs]
    exact h.filled.prints hl hapart ht₀ htarget hfree hprints
  · refine List.forall_mem_append.2 ⟨fun g hg => (h.decided g hg).grows hgrows, ?_⟩
    rintro g hg _ _ - - -
    obtain rfl := List.mem_singleton.1 hg
    simp [hentry]
  · intro below hbelow
    obtain ⟨target, htargets, hname, hparts⟩ := hpage.exists_pageName ht₀.named
    -- A name and a place tell the same about a page.
    have hsame : "/".intercalate below = l.pageName page ↔
        l.pagesOut.parts ++ below = (l.pageOut page).parts := by
      rw [hname, hparts, List.append_right_inj]
      exact ⟨intercalate_inj hbelow htargets, fun h => h ▸ rfl⟩
    rw [houtputs, List.map_append, List.mem_append, List.mem_append, h.mem_names below hbelow,
      List.map_singleton, List.mem_singleton, List.mem_singleton, hsame]
  · rw [hfailures, hunrendered, h.failures_eq]

/-- One page more has none. -/
theorem failed (h : Renders l t₀ titleSuffix earlier given names s) (hl : l.WellFormed)
    (hapart : l.Apart) (ht₀ : t₀.WellFormed) (hpage : IsSource t₀ l.pages templateSuffix page)
    (hout : outputOf l s.session.files page html = none)
    (hopened : Opened (l.pageOut page).parent.parts s.session.files s'.session.files)
    (hlayout : s'.layout = s.layout) (htitleSuffix : s'.titleSuffix = s.titleSuffix)
    (hfailures : s'.result.failures = s.result.failures ++ [page]) :
    Renders l t₀ titleSuffix earlier (given ++ [(page, html)]) names s' := by
  have hgrows := hopened.grows
  have hdecided := decided_of_outputOf_eq_none hout
  have hout' : outputOf l s'.session.files page html = none :=
    (hdecided.outputOf_eq hgrows).trans hout
  have houtputs : outputs l s'.session.files (given ++ [(page, html)]) =
      outputs l s.session.files given := by
    rw [← outputs_grows h.decided hgrows]
    simp [outputs, hout']
  have hunrendered : unrendered l s'.session.files (given ++ [(page, html)]) =
      unrendered l s.session.files given ++ [page] := by
    rw [← unrendered_grows h.decided hgrows]
    simp [unrendered, hout']
  refine ⟨hlayout.trans h.layout_eq, htitleSuffix.trans h.titleSuffix_eq, ?_, ?_, ?_, ?_⟩
  · rw [houtputs]
    exact h.filled.opened hl hapart ht₀ (hpage.isPageTarget_pageOut ht₀) hopened
  · refine List.forall_mem_append.2 ⟨fun g hg => (h.decided g hg).grows hgrows, fun g hg => ?_⟩
    obtain rfl := List.mem_singleton.1 hg
    exact hdecided.grows hgrows
  · intro below hbelow
    rw [houtputs, h.mem_names below hbelow]
  · rw [hfailures, hunrendered, h.failures_eq, List.append_assoc]

/-- Rendering a page adds what its template gives. -/
theorem renderPage (h : Renders l t₀ titleSuffix earlier given names s) (hl : l.WellFormed)
    (hapart : l.Apart) (ht₀ : t₀.WellFormed) (hpage : IsSource t₀ l.pages templateSuffix page)
    (hgives : renderingOf t₀ l titleSuffix page s.pageStore = (html, store)) :
    Ends (Folio.renderPage page) s
      (fun o s' => s'.pageStore = store ∧
        Renders l t₀ titleSuffix earlier (given ++ [(page, html)]) (names ++ o.toList) s')
      fun _ _ => True := by
  have htarget := hpage.isPageTarget_pageOut ht₀
  rw [← renderingOf_congr (h.filled.sameTemplates ht₀ hpage) hl (hpage.covers hl ht₀.named),
    ← h.titleSuffix_eq] at hgives
  refine ends_renderPage h.layout_eq (producePage_outcome h.layout_eq h.filled.wellFormed
    (htarget.isPlain hl) htarget.ne_nil hgives) (fun text s₁ log hone => ?_)
    (fun cause s₁ hone => ?_) fun _ _ _ _ => trivial
  · obtain ⟨⟨session, rfl⟩, content, hout, hprints⟩ := hone
    refine (recordPage_manifest text).mono (fun _ s₂ hrecord => ?_) fun _ _ _ => trivial
    obtain ⟨log, m, rfl⟩ := hrecord
    exact ⟨rfl, h.rendered hl hapart ht₀ hpage hout hprints rfl rfl rfl⟩
  · obtain ⟨⟨session, rfl⟩, hopened, hout⟩ := hone
    refine ⟨rfl, ?_⟩
    rw [Option.toList_none, List.append_nil]
    exact h.failed hl hapart ht₀ hpage (hout cause rfl) hopened rfl rfl rfl

end Renders

end

end Folio
