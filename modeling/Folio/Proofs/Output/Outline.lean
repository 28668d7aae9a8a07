import Folio.Proofs.Output.Writes

/-!
# How the larger steps go

For each of the larger steps of a build, how it ends, given how the steps that it is made
of end.  A rule has one premise for each way in which its step can go on or end, and
whatever is to be shown of a build can be put in for `Q` and `E`.

The rules are all that is needed of these steps.  What a build keeps, writes, records and
counts is derived from them.
-/

namespace Folio

open Text FileTree

variable {l : Layout} {page : Path} {s : Stage} {P : Stage → Prop} {F E : Failure → Stage → Prop}

/-! ## Pages -/

/-- The output of a rendered page, from the output directory of pages on. -/
def Layout.pageName (l : Layout) (page : Path) : String :=
  renderedName (page.textBelow l.pages)

/-- Where a rendered page is written. -/
def Layout.pageOut (l : Layout) (page : Path) : Path :=
  l.pagesOut / l.pageName page

/-- Where a page is copied to. -/
def Layout.copyOut (l : Layout) (page : Path) : Path :=
  l.pagesOut / page.textBelow l.pages

/-- What is put into a manifest if a page is recorded. -/
def entryAdded (t : FileTree) (m : Manifest) (text : List Char) (place : Path) (d : Dependencies)
    (relationships : Source.Relationships String) : Except Cause (String × Manifest) :=
  m.addPage t place d ((Source.tags text).map String.ofList)
    (Source.Relation.all.map fun r => (r.name, relationships.get r)) relationships.isInhabited

/-- Why a page is not recorded. -/
inductive Unrecorded (l : Layout) (t : FileTree) (m : Manifest) (page : Path) (text : List Char)
    (e : Failure) : Prop
  | search (h : (scan l page).outcome t = .error e)
  | place {fault : Path.Unusable} (h : page.resolved = .error fault)
  | relationships {place : Path} (hplace : page.resolved = .ok place)
      (h : (pageRelationships l place text).outcome t = .error e)
  | entry {d : Dependencies} {place : Path} {relationships : Source.Relationships String}
      {cause : Cause} (hsearch : (scan l page).outcome t = .ok d)
      (hplace : page.resolved = .ok place)
      (hrelationships : (pageRelationships l place text).outcome t = .ok relationships)
      (h : entryAdded t m text place d relationships = .error cause)

/-- A page is recorded if what it says of itself can be found out. -/
theorem ends_recordPage {text : List Char} {Q : Unit → Stage → Prop} (hlayout : s.layout = l)
    (hrecorded : ∀ d place relationships key m log, (scan l page).outcome s.session.files = .ok d →
      page.resolved = .ok place →
      (pageRelationships l place text).outcome s.session.files = .ok relationships →
      entryAdded s.session.files s.manifest text place d relationships = .ok (key, m) →
      Q () ((s.reporting log).recording m))
    (hends : ∀ e log, Unrecorded l s.session.files s.manifest page text e →
      E e (s.reporting log)) :
    Ends (recordPage page text) s Q E := by
  unfold recordPage
  rw [ends_bind, Step.ends_layout, hlayout, ends_bind]
  refine ((reads_scan l page).ends_act s).mono (fun d s₁ h => ?_) fun e s₁ h => ?_
  · obtain ⟨hsearch, log₁, rfl⟩ := h
    rw [ends_bind, Step.ends_orRaise]
    cases hplace : page.resolved with
    | error fault => exact hends _ log₁ (.place hplace)
    | ok place =>
        dsimp only [Except.mapError]
        rw [ends_bind]
        refine ((reads_pageRelationships l place text).ends_act _).mono
          (fun relationships s₂ h => ?_) fun e s₂ h => ?_
        · obtain ⟨hrelationships, log₂, rfl⟩ := h
          simp only [ends_bind, ends_get, Step.ends_files, Step.ends_orRaise]
          split
          · rename_i added hadd
            obtain ⟨key, m⟩ := added
            exact Step.ends_setManifest.2
              (hrecorded d place relationships key m log₂ hsearch hplace hrelationships hadd)
          · rename_i cause hadd
            exact hends _ log₂ (.entry hsearch hplace hrelationships hadd)
        · obtain ⟨hrelationships, log₂, rfl⟩ := h
          exact hends e log₂ (.relationships hplace hrelationships)
  · obtain ⟨hsearch, log₁, rfl⟩ := h
    exact hends e log₁ (.search hsearch)

/-- A page is rendered and recorded, or noted as failed. -/
theorem ends_renderPage {R : List Char → Stage → Prop} {Q : Option String → Stage → Prop}
    (hlayout : s.layout = l)
    (hproduce : Ends (producePage page (page.textBelow l.pages) (l.pageOut page)) s R F)
    (hrecord : ∀ text s' log, R text s' → Ends (recordPage page text)
      ((s'.reporting log).counting fun r => { r with pagesRendered := r.pagesRendered + 1 })
      (fun _ => Q (some (l.pageName page))) E)
    (hnoted : ∀ cause s', F (.raised cause) s' → Q none (Step.failed s' page cause))
    (hends : ∀ e s', F e s' → (∀ cause, e ≠ .raised cause) → E e s') :
    Ends (renderPage page) s Q E := by
  unfold renderPage
  rw [ends_bind, Step.ends_layout, hlayout]
  dsimp only
  rw [ends_bind, Step.ends_attempt]
  refine hproduce.mono (fun text s' h => ?_) fun e s' h => ?_
  · simp only [ends_bind, Step.ends_act, Action.ends_info, Step.ends_count, ends_pure]
    exact hrecord text s' _ h
  · cases e with
    | raised cause =>
        rw [ends_bind, Step.ends_failRendering]
        exact ends_pure.2 (hnoted cause s' h)
    | config | unreadableConfig | build | usage =>
        refine ends_throw.2 (hends _ s' h fun cause hraised => ?_)
        cases hraised

/-- The pages are listed and rendered one after the other. -/
theorem ends_renderPages {Q : List String → Stage → Prop} (hlayout : s.layout = l)
    (hunlisted : ∀ cause, filesIn s.session.files l.pages [templateSuffix] = .error cause →
      E (.raised cause) s)
    (hlisted : ∀ pages, filesIn s.session.files l.pages [templateSuffix] = .ok pages →
      Ends (pages.filterMapM renderPage) s (fun names => Q names.eraseDups) E) :
    Ends renderPages s Q E := by
  unfold renderPages
  simp only [ends_bind, Step.ends_layout, Step.ends_files, Step.ends_orRaise, hlayout]
  split
  · rename_i pages hpages
    exact (hlisted pages hpages).mono (fun _ _ h => ends_pure.2 h) fun _ _ h => h
  · rename_i cause hcause
    exact hunlisted cause hcause

/-- A page that needs no rendering is passed over, copied or noted as failed. -/
theorem ends_copyStaticPage {taken : List String} {Q : Unit → Stage → Prop}
    (hlayout : s.layout = l)
    (htaken : ∀ log, page.textBelow l.pages ∈ taken → Q () (s.reporting log))
    (hcopy : page.textBelow l.pages ∉ taken →
      Ends (Step.act (copyPage page (l.copyOut page))) s (fun _ => P) F)
    (hcopied : ∀ s' log, page.textBelow l.pages ∉ taken → P s' → Q ()
      ((s'.reporting log).counting fun r => { r with pagesCopied := r.pagesCopied + 1 }))
    (hnoted : ∀ cause s' log, page.textBelow l.pages ∉ taken → cause.isReadFault →
      F (.raised cause) s' → Q ()
        ((s'.reporting log).counting fun r => { r with failures := r.failures ++ [page] }))
    (hends : ∀ e s', page.textBelow l.pages ∉ taken → F e s' →
      (∀ cause, e = .raised cause → ¬ cause.isReadFault) → E e s') :
    Ends (copyStaticPage taken page) s Q E := by
  unfold copyStaticPage
  rw [ends_bind, Step.ends_layout, hlayout]
  dsimp only
  split
  · rename_i hmem
    rw [Step.ends_act, Action.ends_debug]
    exact htaken _ (List.contains_iff_mem.1 hmem)
  · rename_i hmem
    have hfree : page.textBelow l.pages ∉ taken := fun h => hmem (List.contains_iff_mem.2 h)
    rw [ends_bind, Step.ends_attempt]
    refine (hcopy hfree).mono (fun _ s' h => ?_) fun e s' h => ?_
    · simp only [ends_bind, Step.ends_act, Action.ends_info, Step.ends_count]
      exact hcopied s' _ hfree h
    · cases e with
      | raised cause =>
          dsimp only
          -- Only a failure to read or write a file is noted; any other ends the build.
          split
          · rename_i hfault
            unfold Step.noteFailure
            simp only [ends_bind, Step.ends_act, Action.ends_warn, Step.ends_count]
            exact hnoted cause s' _ hfree hfault h
          · rename_i hfault
            refine ends_throw.2 (hends _ s' hfree h ?_)
            rintro _ ⟨⟩
            exact hfault
      | config | unreadableConfig | build | usage =>
          refine ends_throw.2 (hends _ s' hfree h fun cause hraised => ?_)
          cases hraised

/-- The pages that need no rendering are listed and copied one after the other. -/
theorem ends_copyStaticPages {taken : List String} {Q : Unit → Stage → Prop}
    (hlayout : s.layout = l)
    (hunlisted : ∀ cause, filesIn s.session.files l.pages [outputSuffix] = .error cause →
      E (.raised cause) s)
    (hlisted : ∀ pages, filesIn s.session.files l.pages [outputSuffix] = .ok pages →
      Ends (pages.forM (copyStaticPage taken)) s Q E) :
    Ends (copyStaticPages taken) s Q E := by
  unfold copyStaticPages
  simp only [ends_bind, Step.ends_layout, Step.ends_files, Step.ends_orRaise, hlayout]
  split
  · rename_i pages hpages
    exact hlisted pages hpages
  · rename_i cause hcause
    exact hunlisted cause hcause

/-! ## Previews -/

section

variable {c : ShownComponent} {d : Dependencies} {tags : List String} {file : Path}

/-- A component in a state is shown and recorded, or noted as failed. -/
theorem ends_renderState {state : ComponentState} {target : Path} {rel : String}
    {Q : Option PreviewLink → Stage → Prop} (hlayout : s.layout = l)
    (htarget : target = l.componentsOut / c.id / (state.name ++ outputSuffix))
    (hrel : rel = target.textBelow l.componentsOut)
    (hproduce : Ends (producePreview c state target) s (fun _ => P) F)
    (hrecorded : ∀ s' m log, P s' → s'.manifest.addState s'.session.files ("components/" ++ rel)
        c.file c.routine d tags = .ok m →
      Q (some ⟨state.name, rel⟩) (((s'.reporting log).counting fun r =>
        { r with previews := r.previews + 1 }).recording m))
    (hunrecorded : ∀ cause s' log, P s' → E (.raised cause)
      ((s'.reporting log).counting fun r => { r with previews := r.previews + 1 }))
    (hnoted : ∀ cause s', F (.raised cause) s' → Q none (Step.failed s' target cause))
    (hends : ∀ e s', F e s' → (∀ cause, e ≠ .raised cause) → E e s') :
    Ends (renderState c d tags state) s Q E := by
  subst hrel htarget
  unfold renderState
  rw [ends_bind, Step.ends_layout, hlayout]
  dsimp only
  rw [ends_bind, Step.ends_attempt]
  refine hproduce.mono (fun _ s' h => ?_) fun e s' h => ?_
  · simp only [ends_bind, Step.ends_act, Action.ends_info, Step.ends_count, ends_get,
      Step.ends_files, Step.ends_orRaise]
    split
    · rename_i m hadd
      rw [Step.ends_setManifest]
      exact ends_pure.2 (hrecorded s' m _ h hadd)
    · exact hunrecorded _ s' _ h
  · cases e with
    | raised cause =>
        rw [ends_bind, Step.ends_failRendering]
        exact ends_pure.2 (hnoted cause s' h)
    | config | unreadableConfig | build | usage =>
        refine ends_throw.2 (hends _ s' h fun cause hraised => ?_)
        cases hraised

/-- The states of a component are read and shown one after the other; it is listed if there
is a preview of it. -/
theorem ends_renderStates {text : List Char} {Q : Option ComponentListing → Stage → Prop}
    (hlayout : s.layout = l)
    (hensure : Ends (Step.act (ensureDirectory (l.componentsOut / c.id))) s (fun _ => P) E)
    (hunread : ∀ e s' log, P s' → E e (s'.reporting log))
    (hstates : ∀ d states s' log, P s' → (loadStates c.file).outcome s'.session.files = .ok states →
      Ends (states.filterMapM (renderState c d ((Source.tags text).map String.ofList)))
        (s'.reporting log)
        (fun links s'' => (links = [] → Q none s'') ∧ (links ≠ [] → Q (some ⟨c.id, links⟩) s'')) E) :
    Ends (renderStates c text) s Q E := by
  unfold renderStates
  rw [ends_bind, Step.ends_layout, hlayout, ends_bind]
  refine hensure.mono (fun _ s' h => ?_) fun _ _ h => h
  rw [ends_bind]
  refine ((reads_scan l c.file).ends_act s').mono (fun d s₁ h₁ => ?_) fun e s₁ h₁ => ?_
  · obtain ⟨-, log₁, rfl⟩ := h₁
    rw [ends_bind]
    refine ((reads_loadStates c.file).ends_act _).mono (fun states s₂ h₂ => ?_) fun e s₂ h₂ => ?_
    · obtain ⟨houtcome, log₂, rfl⟩ := h₂
      rw [ends_bind]
      refine (hstates d states s' log₂ h houtcome).mono (fun links s'' hlinks => ?_) fun _ _ h => h
      split
      · exact ends_pure.2 (hlinks.1 rfl)
      · rename_i hne
        exact ends_pure.2 (hlinks.2 hne)
    · obtain ⟨-, log₂, rfl⟩ := h₂
      exact hunread e s' log₂ h
  · obtain ⟨-, log₁, rfl⟩ := h₁
    exact hunread e s' log₁ h

/-- The component of a file is shown if it can be read and has a macro. -/
theorem ends_renderComponent {Q : Option ComponentListing → Stage → Prop} (hlayout : s.layout = l)
    (hunread : ∀ cause, s.session.files.readText file = .error cause → cause.isReadFault →
      Q none (Step.failed s file cause))
    (hends : ∀ cause, s.session.files.readText file = .error cause → ¬ cause.isReadFault →
      E (.raised cause) s)
    (hbare : ∀ text log, s.session.files.readText file = .ok text →
      Source.firstMacroName? text = none → Q none (s.reporting log))
    (hshown : ∀ text name, s.session.files.readText file = .ok text →
      Source.firstMacroName? text = some name →
      Ends (renderStates ⟨file, file.textBelow l.components, String.ofList name⟩ text) s Q E) :
    Ends (renderComponent file) s Q E := by
  unfold renderComponent
  rw [ends_bind, Step.ends_files]
  split
  · rename_i cause hread
    split
    · rename_i hfault
      rw [ends_bind, Step.ends_failRendering]
      exact ends_pure.2 (hunread cause hread hfault)
    · rename_i hfault
      exact ends_throw.2 (hends cause hread hfault)
  · rename_i text hread
    split
    · rename_i hname
      simp only [ends_bind, Step.ends_act, Action.ends_debug, ends_pure]
      exact hbare text _ hread hname
    · rename_i name hname
      rw [ends_bind, Step.ends_layout, hlayout]
      exact hshown text name hread hname

/-- The components are listed and shown one after the other. -/
theorem ends_renderComponents {Q : List ComponentListing → Stage → Prop} (hlayout : s.layout = l)
    (hunlisted : ∀ cause, filesIn s.session.files l.components [templateSuffix] = .error cause →
      E (.raised cause) s)
    (hlisted : ∀ files, filesIn s.session.files l.components [templateSuffix] = .ok files →
      Ends (files.filterMapM renderComponent) s Q E) :
    Ends renderComponents s Q E := by
  unfold renderComponents
  simp only [ends_bind, Step.ends_layout, Step.ends_files, Step.ends_orRaise, hlayout]
  split
  · rename_i files hfiles
    exact hlisted files hfiles
  · rename_i cause hcause
    exact hunlisted cause hcause

end

end Folio
