import Folio.Build
import Folio.Proofs.FileTree.Twins
import Folio.Proofs.Output.Building
import Folio.Proofs.Output.Disk
import Folio.Proofs.Output.Manifest
import Folio.Proofs.Output.Neighbours
import Folio.Proofs.Output.SideBySide
import Folio.Proofs.Scan.Inside

/-!
# Rendering in two trees

Two trees are `Ready` for a build of a space if they have the same templates, nothing in
the directories for output, and the same directories beside these.  Then pages and
previews are rendered alike in both: every step reads templates, asks for files that are
no pages, or writes below the directories for output, and does the same to both trees.

What else the two trees hold does not matter, except that a name that is too long may be
met in one of them alone.
-/

namespace Folio

open Text FileTree Folio.Action

variable {lost : Lost Failure} {l : Layout} {u u' t t' : FileTree} {D F : Place → Prop}

/-! ## Writing -/

section

variable {p : Path} {names place : Place}

theorem together_ensureDirectory (hp : LeadsDown p names) (hway : Way D u u' names) :
    Together lost (OnFiles (Twins D F u u')) (ensureDirectory p) (ensureDirectory p) := by
  unfold ensureDirectory
  refine together_files_bind fun t t' h => ?_
  obtain ⟨hfault, hmade⟩ := h.makeDirectories hp hway
  rcases hleft : t.makeDirectories p with ⟨w, fault⟩
  rcases hright : t'.makeDirectories p with ⟨w', fault'⟩
  rw [hleft, hright] at hfault hmade
  obtain rfl : fault = fault' := hfault
  refine (together_setFiles hmade).bind fun _ => ?_
  cases fault with
  | none => exact together_pure _
  | some fault => exact together_throw _

theorem together_putText (hp : Target D F u u' p names place) (text : List Char) :
    Together lost (OnFiles (Twins D F u u'))
      (do setFiles (← orRaise ((← files).writeText p text)))
      (do setFiles (← orRaise ((← files).writeText p text))) := by
  refine together_files_bind fun t t' h => ?_
  unfold writeText
  rcases h.write hp (String.ofList text).toUTF8 with ⟨hleft, hright, hkeep⟩ |
    ⟨fault, hleft, hright, -⟩
  · rw [hleft, hright]
    exact together_setFiles hkeep
  · rw [hleft, hright]
    exact together_throw _

theorem together_writePage (hp : Target D F u u' p names place) (html : List Char) :
    Together lost (OnFiles (Twins D F u u')) (writePage p html) (writePage p html) := by
  unfold writePage
  refine (together_ensureDirectory hp.leads.parent hp.way).bind fun _ => ?_
  exact (together_orRaise _).bind fun text => together_putText hp text

end

/-! ## Trees that are ready -/

namespace Layout

/-- The stylesheet of the space itself. -/
def ownStylesheet (l : Layout) : Path :=
  l.styles / stylesheetName

/-- The stylesheet that is taken if the space has none. -/
def sharedStylesheet (l : Layout) : Path :=
  l.workspace / sentinelName / "styles" / stylesheetName

theorem parts_ownStylesheet :
    l.ownStylesheet.parts = l.templates.parts ++ ["styles"] ++ [stylesheetName] := by
  have hname : IsFileName stylesheetName := by decide
  have hstyles : IsFileName "styles" := by decide
  unfold ownStylesheet styles
  rw [Path.joinText_name hname, Path.joinText_name hstyles]

theorem templates_isPrefix_ownStylesheet (l : Layout) : l.templates.parts <+: l.ownStylesheet.parts := by
  rw [parts_ownStylesheet, List.append_assoc]
  exact List.prefix_append ..

theorem IsRenewed.isOutput {directory : Path} (h : l.IsRenewed directory) {q : Place}
    (hq : directory.parts <+: q) : l.IsOutput q := by
  cases h with
  | pages => exact .inl hq
  | components => exact .inr hq

theorem output_isPrefix_of_isOutput {q : Place} (hq : l.IsOutput q) : l.output.parts <+: q :=
  hq.elim (fun h => (IsRenewed.pages (l := l)).output_isPrefix.trans h) fun h =>
    (IsRenewed.components (l := l)).output_isPrefix.trans h

end Layout

/-- Two trees in which the directories for output have been emptied, and whose templates
are the same. -/
structure Ready (l : Layout) (lost : Lost Failure) (u u' : FileTree) : Prop where
  left : u.WellFormed
  right : u'.WellFormed
  source_eq : ∀ q, l.templates.parts <+: q → u.entry? q = u'.entry? q
  output_left : u.entry? l.output.parts = some .directory
  output_right : u'.entry? l.output.parts = some .directory
  emptied : ∀ q, l.IsOutput q → u.entry? q = u'.entry? q
  beside : ∀ name, u.entry? (l.output.parts ++ [name]) = some .directory ↔
    u'.entry? (l.output.parts ++ [name]) = some .directory
  matched : Matched lost u u'
  inside : l.RefersInside u
  styled : u.IsFile l.ownStylesheet.parts ∨
    u.entry? l.sharedStylesheet.parts = u'.entry? l.sharedStylesheet.parts

namespace Ready

variable {directory : Path} {names : List String} {last : String}

theorem way_output (h : Ready l lost u u') {q : Place} (hq : q <+: l.output.parts) :
    u.entry? q = some .directory ∧ u'.entry? q = some .directory := by
  by_cases hsame : q = l.output.parts
  · exact hsame ▸ ⟨h.output_left, h.output_right⟩
  · exact ⟨h.left.directoriesAbove (by simp [h.output_left]) q hq hsame,
      h.right.directoriesAbove (by simp [h.output_right]) q hq hsame⟩

theorem way_below (h : Ready l lost u u') (hl : l.WellFormed) (hdirectory : l.IsRenewed directory)
    (hnames : ∀ name ∈ names, IsFileName name) :
    Way l.IsOutput u u' (directory.parts ++ names) := by
  have hcases : ∀ q, q <+: directory.parts ++ names →
      l.IsOutput q ∨ q <+: l.output.parts := by
    intro q hq
    rcases List.prefix_or_prefix_of_prefix hq (List.prefix_append ..) with hq | hq
    · obtain ⟨name, hparts⟩ := hdirectory.parts_eq
      rw [hparts, List.prefix_concat_iff, ← hparts] at hq
      refine hq.imp_left fun hq => hdirectory.isOutput ?_
      rw [hq]
    · exact .inl (hdirectory.isOutput hq)
  refine ⟨((hdirectory.isPlain hl).below hnames).names, fun q hq => ?_, fun q hq => ?_⟩
  · rcases hcases q hq with hq | hq
    · exact h.emptied q hq
    · rw [(h.way_output hq).1, (h.way_output hq).2]
  · exact (hcases q hq).imp_right fun hq => (h.way_output hq).1

theorem target_below (h : Ready l lost u u') (hl : l.WellFormed)
    (hdirectory : l.IsRenewed directory) (hnames : ∀ name ∈ names, IsFileName name)
    (hup : last ≠ "..") (hlast : Path.isUsable last → IsFileName last) :
    Target l.IsOutput F u u' ⟨directory.anchor, directory.parts ++ (names ++ [last])⟩
      (directory.parts ++ names) (directory.parts ++ (names ++ [last])) where
  leads := leadsTo_below hl hdirectory hnames hup
  last_ne := ⟨directory.parts ++ names, last, by simp, hup⟩
  way := h.way_below hl hdirectory hnames
  isFileName_place husable name hname := by
    rw [← List.append_assoc] at hname
    rcases List.mem_append.1 hname with hname | hname
    · exact ((hdirectory.isPlain hl).below hnames).names name hname
    · obtain rfl := List.mem_singleton.1 hname
      exact hlast (husable _ (by simp))
  edited := .inl (hdirectory.isOutput (List.prefix_append ..))
  directory_iff := by rw [h.emptied _ (hdirectory.isOutput (List.prefix_append ..))]

/-- The path to a preview, wherever it leads. -/
theorem target_preview (h : Ready l lost u u') (hl : l.WellFormed) {c : ShownComponent}
    {state : String} (hc : IsComponent c names last) (hstate : isStateName state) :
    ∃ below place, Target l.IsOutput l.IsStray u u'
      (l.componentsOut / c.id / (state ++ outputSuffix)) below place := by
  have hplain : l.componentsOut.IsPlain := Layout.IsRenewed.components.isPlain hl
  have hname := isFileName_state hstate
  -- A preview that goes up stays among the previews, or comes to lie beside them.
  have hwhere :
      l.IsOutput ((l.componentsOut.parts ++ names).dropLast ++ [state ++ outputSuffix]) ∨
        l.IsStray ((l.componentsOut.parts ++ names).dropLast ++ [state ++ outputSuffix]) ∧
          (l.componentsOut.parts ++ names).dropLast ++ [state ++ outputSuffix] =
            l.output.parts ++ [state ++ outputSuffix] := by
    rcases List.eq_nil_or_concat names with rfl | ⟨init, lower, rfl⟩
    · have hbeside : (l.componentsOut.parts ++ []).dropLast ++ [state ++ outputSuffix] =
          l.output.parts ++ [state ++ outputSuffix] := by
        rw [List.append_nil, Layout.parts_componentsOut, List.dropLast_concat]
      exact .inr ⟨⟨state, hstate, hbeside⟩, hbeside⟩
    · left
      rw [List.concat_eq_append, ← List.append_assoc, List.dropLast_concat, List.append_assoc]
      exact .inr (List.prefix_append ..)
  by_cases hup : IsUpName last
  · obtain ⟨below, hbelow, hleads⟩ := hc.leadsTo hplain hstate
    rw [hc.place_of_isUpName hplain hstate hup] at hleads
    refine ⟨_, _, hleads, ⟨_, _, congrArg Path.parts (joinText_state hstate),
      append_outputSuffix_ne state⟩, h.way_below hl .components hbelow, fun husable n hn => ?_, ?_,
      ?_⟩
    · rcases List.mem_append.1 hn with hn | hn
      · exact (hplain.below hc.names_isFileName).names n (List.dropLast_subset _ hn)
      · obtain rfl := List.mem_singleton.1 hn
        exact hname (husable _ (by simp))
    · exact hwhere.imp_right fun h => h.1
    · rcases hwhere with houtput | ⟨-, hbeside⟩
      · rw [h.emptied _ houtput]
      · rw [hbeside]
        exact h.beside _
  · rw [hc.preview_eq hstate]
    exact ⟨_, _, h.target_below hl .components (hc.stem_isFileName hup)
      (append_outputSuffix_ne state) hname⟩

end Ready

/-! ## Trees that are edited while rendering -/

/-- Two trees that were made alike from two others by rendering. -/
abbrev Aligned (l : Layout) (u u' : FileTree) : FileTree → FileTree → Prop :=
  Twins l.IsOutput l.IsStray u u'

namespace Aligned

variable {p : Path}

theorem entry?_template (h : Aligned l u u' t t') (hapart : l.Apart) {q : Place}
    (hq : l.templates.parts <+: q) : t.entry? q = u.entry? q :=
  Twins.entry?_left h
    (fun houtput => hapart.not_templates_isPrefix (Layout.output_isPrefix_of_isOutput houtput) hq)
    fun hstray => hapart.not_templates_isPrefix (hstray.output_isPrefix) hq

theorem source_eq (h : Aligned l u u' t t') (hready : Ready l lost u u') {q : Place}
    (hq : l.templates.parts <+: q) : t.entry? q = t'.entry? q :=
  h.entry?_eq (hready.source_eq q hq)

theorem matched (h : Aligned l u u' t t') (hready : Ready l lost u u') : Matched lost t t' :=
  hready.matched.imp_left fun hdirectories q => h.directory_iff (hdirectories q)

theorem sameTemplates (h : Aligned l u u' t t') (hready : Ready l lost u u') (hapart : l.Apart)
    (hthere : u.entry? l.templates.parts = some .directory) : l.SameTemplates t t' := by
  refine Layout.sameTemplates_of_directory h.left.wellFormed h.right.wellFormed ?_
    fun q => h.source_eq hready
  rw [h.entry?_template hapart List.prefix_rfl, hthere]

theorem refersInside (h : Aligned l u u' t t') (hready : Ready l lost u u') (hapart : l.Apart) :
    l.RefersInside t :=
  hready.inside.of_source hready.left h.left.wellFormed
    fun _ hq => (h.entry?_template hapart hq).symm

theorem filesIn_alike (h : Aligned l u u' t t') (hready : Ready l lost u u') (hl : l.WellFormed)
    (kind : RootKind) (suffix : String) :
    Alike lost.ofCauses (filesIn t (l.rootOf kind) [suffix])
      (filesIn t' (l.rootOf kind) [suffix]) :=
  (h.matched hready).filesIn_alike h.left.wellFormed h.right.wellFormed
    (fun _ => h.source_eq hready) (hl.rootOf kind).isCanonical suffix

end Aligned

/-- A template of a kind, by its names, in a tree that has the directory of templates. -/
structure IsTemplate (l : Layout) (u : FileTree) (kind : RootKind) (suffix : String) (p : Path)
    (names : List String) (last : String) : Prop where
  isFileName : ∀ name ∈ names ++ [last], IsFileName name
  hasSuffix : hasSuffix suffix last.toList
  eq : p = ⟨(l.rootOf kind).anchor, (l.rootOf kind).parts ++ (names ++ [last])⟩
  there : u.entry? l.templates.parts = some .directory

namespace IsTemplate

variable {kind : RootKind} {suffix last : String} {p : Path} {names : List String}

theorem of_filesIn (hl : l.WellFormed) (hapart : l.Apart) (h : Aligned l u u' t t')
    {files : List Path} (hfiles : filesIn t (l.rootOf kind) [suffix] = .ok files) (hp : p ∈ files) :
    ∃ names last, IsTemplate l u kind suffix p names last := by
  have ht := h.left.wellFormed
  obtain ⟨names, last, hlisted, hparts⟩ :=
    isListed_of_mem_filesIn (hl.rootOf kind).isCanonical.not_mem hfiles hp
  refine ⟨names, last, hlisted.isFileName ht.named, hlisted.hasSuffix, hparts, ?_⟩
  obtain ⟨content, hmem⟩ := hlisted.mem_entries
  rw [mem_entries_iff ht.nodup (by simp), Layout.parts_rootOf, List.append_assoc] at hmem
  rw [← h.entry?_template hapart List.prefix_rfl]
  exact ht.entry?_above (by simp) (ne_of_eq_of_ne hmem (by simp))

theorem holds (h : IsTemplate l u kind suffix p names last) (hl : l.WellFormed) : l.Holds p := by
  have hunder : Path.isUnder (l.rootOf kind) p := by
    rw [h.eq]
    exact Path.isUnder_iff.2 ⟨rfl, List.prefix_append ..⟩
  refine ⟨?_, Layout.isUnder_templates_of_rootOf hunder⟩
  rw [h.eq]
  exact ((hl.rootOf kind).below h.isFileName).isCanonical

end IsTemplate

section

variable {page : Path} {names : List String} {last : String}

/-! ## Pages -/

theorem covers_rootOf (hl : l.WellFormed) (kind : RootKind) : l.Covers (l.rootOf kind) := by
  refine ⟨(hl.rootOf kind).isCanonical.not_mem, ?_⟩
  rw [Layout.parts_rootOf]
  exact List.prefix_append ..

theorem together_frontmatterData (text : List Char) (source : String) :
    Together lost (OnFiles (Aligned l u u')) (frontmatterData text source)
      (frontmatterData text source) := by
  unfold frontmatterData
  split
  · exact together_pure _
  · split
    · exact together_pure _
    · exact together_pure _
    · exact (together_warn _ _).bind fun _ => together_pure _
    · exact (together_warn _ _).bind fun _ => together_pure _
    · exact together_throw _

theorem together_producePage (hl : l.WellFormed) (hapart : l.Apart) (hready : Ready l lost u u')
    (hpage : IsTemplate l u .page templateSuffix page names last) (rel : String) {target : Path}
    {below place : Place} (htarget : Target l.IsOutput l.IsStray u u' target below place) :
    Together .none (OnStage l (Aligned l u u')) (producePage page rel target)
      (producePage page rel target) := by
  unfold producePage
  refine Step.together_files_bind fun t t' h => ?_
  have hsame := h.sameTemplates hready hapart hpage.there
  rw [← hsame.readText (hpage.holds hl).covers]
  refine (Step.togetherYields_orRaise _).bind fun text _ => Step.together_layout_bind ?_
  have hroots : ∀ root ∈ l.pageRoots, l.Covers root := by
    intro root hroot
    obtain ⟨kind, -, rfl⟩ := List.mem_map.1 hroot
    exact covers_rootOf hl kind
  rw [← hsame.loaderOf hroots]
  refine (Step.togetherYields_orRaise _).bind fun found _ => ?_
  obtain ⟨source, template⟩ := found
  refine (Step.together_stylesheetHref _).bind fun stylesheet => ?_
  refine (Step.together_act (together_frontmatterData _ _)).bind fun data => ?_
  refine Step.together_get_bind fun s session _ _ => ?_
  refine (Step.together_inPages _).bind fun html => ?_
  exact (Step.together_act (together_writePage htarget _)).bind fun _ => together_pure _

theorem together_recordPage (hl : l.WellFormed) (hapart : l.Apart) (hready : Ready l lost u u')
    (hpage : IsTemplate l u .page templateSuffix page names last) (text : List Char) :
    Together lost (OnStage l (Aligned l u u')) (recordPage page text) (recordPage page text) := by
  have hholds := hpage.holds hl
  have hscan : TogetherYields lost (OnFiles (Aligned l u u'))
      (fun d => ∀ p ∈ d.components, l.Holds p) (scan l page) (scan l page) :=
    togetherYields_reads (reads_scan _ _) (reads_scan _ _)
      (fun t t' h => .of_eq (scan_congr (h.refersInside hready hapart)
        (h.sameTemplates hready hapart hpage.there) hholds))
      fun t t' d _ hd => holds_of_scan hholds hd
  have hrelated : ∀ t t', Aligned l u u' t t' → ∀ target, Alike lost.ofCauses
      ((resolveRelationship t l page target).map l.keysOf)
      ((resolveRelationship t' l page target).map l.keysOf) := fun t t' h =>
    resolveRelationship_alike (h.matched hready) h.left.wellFormed h.right.wellFormed
      (fun _ => h.source_eq hready) page
  unfold recordPage
  refine Step.together_layout_bind ((Step.togetherYields_act hscan).bind fun d hd => ?_)
  rw [hholds.isCanonical.resolved_eq]
  refine (Step.togetherYields_orRaise _).bind fun place hplace => ?_
  obtain rfl := Except.ok.inj hplace
  refine (Step.together_act (together_pageRelationships hrelated text)).bind fun relationships => ?_
  refine Step.together_get_bind fun s session hlayout hmanifest => ?_
  refine Step.together_files_bind fun t t' h => ?_
  dsimp only
  rw [Manifest.addPage_congr (h.sameTemplates hready hapart hpage.there)
    fun p hp => (hd p hp).covers]
  refine (Step.togetherYields_orRaise _).bind fun added hadded => ?_
  obtain ⟨key, m⟩ := added
  exact Step.together_setManifest ((Manifest.addPage_eq_ok hadded).2.1.trans hmanifest)

theorem together_renderPage (hl : l.WellFormed) (hapart : l.Apart) (hready : Ready l lost u u')
    (hpage : IsTemplate l u .page templateSuffix page names last) :
    Together lost (OnStage l (Aligned l u u')) (renderPage page) (renderPage page) := by
  have hrendered : IsFileName (renderedName last) :=
    isFileName_renderedName (hpage.isFileName last (by simp))
  obtain ⟨below, place, htarget⟩ : ∃ below place, Target l.IsOutput l.IsStray u u'
      (l.pagesOut / renderedName (page.textBelow l.pages)) below place := by
    rw [hpage.eq]
    unfold Layout.pages
    rw [joinText_renderedName l.pagesOut hpage.isFileName hpage.hasSuffix]
    exact ⟨_, _, hready.target_below hl .pages
      (fun name hname => hpage.isFileName name (List.mem_append_left _ hname)) hrendered.2.2.1
      fun _ => hrendered⟩
  unfold renderPage
  refine Step.together_layout_bind ?_
  dsimp only
  refine (Step.together_attempt
    (together_producePage hl hapart hready hpage _ htarget)).bind fun outcome => ?_
  split
  · exact (Step.together_failRendering _ _).bind fun _ => together_pure _
  · exact together_throw _
  · refine (Step.together_act (together_info _ _)).bind fun _ => ?_
    refine (Step.together_count _).bind fun _ => ?_
    exact (together_recordPage hl hapart hready hpage _).bind fun _ => together_pure _

theorem together_renderPages (hl : l.WellFormed) (hapart : l.Apart)
    (hready : Ready l lost u u') :
    Together lost (OnStage l (Aligned l u u')) renderPages renderPages := by
  unfold renderPages
  refine Step.together_layout_bind (Step.together_files_bind fun t t' h => ?_)
  refine (Step.togetherYields_orRaise_alike (h.filesIn_alike hready hl .page templateSuffix)).bind
    fun pages hpages => ?_
  refine (together_filterMapM fun page hpage => ?_).bind fun _ => together_pure _
  obtain ⟨names, last, hpage⟩ := IsTemplate.of_filesIn hl hapart h hpages.1 hpage
  exact together_renderPage hl hapart hready hpage

theorem together_copyStaticPage (hl : l.WellFormed) (hapart : l.Apart)
    (hready : Ready l lost u u') (hpage : IsTemplate l u .page outputSuffix page names last)
    (taken : List String) :
    Together lost (OnStage l (Aligned l u u')) (copyStaticPage taken page)
      (copyStaticPage taken page) := by
  obtain ⟨below, place, htarget⟩ : ∃ below place, Target l.IsOutput l.IsStray u u'
      (l.pagesOut / page.textBelow l.pages) below place := by
    have hname := hpage.isFileName last (by simp)
    rw [hpage.eq]
    unfold Layout.pages
    rw [joinText_textBelow l.pagesOut (by simp) hpage.isFileName]
    exact ⟨_, _, hready.target_below hl .pages
      (fun name hname => hpage.isFileName name (List.mem_append_left _ hname)) hname.2.2.1
      fun _ => hname⟩
  have hcopy : Together .none (OnFiles (Aligned l u u'))
      (copyPage page (l.pagesOut / page.textBelow l.pages))
      (copyPage page (l.pagesOut / page.textBelow l.pages)) := by
    unfold copyPage
    refine together_files_bind fun t t' h => ?_
    rw [(h.sameTemplates hready hapart hpage.there).readText (hpage.holds hl).covers]
    exact (together_orRaise _).bind fun text => together_writePage htarget _
  unfold copyStaticPage
  refine Step.together_layout_bind ?_
  dsimp only
  split
  · exact Step.together_act (together_debug _ _)
  · refine (Step.together_attempt (Step.together_act hcopy)).bind fun outcome => ?_
    split
    · exact (Step.together_act (together_info _ _)).bind fun _ => Step.together_count _
    · split
      · exact (Step.together_act (together_warn _ _)).bind fun _ => Step.together_noteFailure _
      · exact together_throw _
    · exact together_throw _

theorem together_copyStaticPages (hl : l.WellFormed) (hapart : l.Apart)
    (hready : Ready l lost u u') (taken : List String) :
    Together lost (OnStage l (Aligned l u u')) (copyStaticPages taken)
      (copyStaticPages taken) := by
  unfold copyStaticPages
  refine Step.together_layout_bind (Step.together_files_bind fun t t' h => ?_)
  refine (Step.togetherYields_orRaise_alike (h.filesIn_alike hready hl .page outputSuffix)).bind
    fun pages hpages => together_forM fun page hpage => ?_
  obtain ⟨names, last, hpage⟩ := IsTemplate.of_filesIn hl hapart h hpages.1 hpage
  exact together_copyStaticPage hl hapart hready hpage taken

end

/-! ## Previews -/

section

variable {c : ShownComponent} {names : List String} {last : String}

theorem together_producePreview (hl : l.WellFormed) (hapart : l.Apart)
    (hready : Ready l lost u u') (hthere : u.entry? l.templates.parts = some .directory)
    (state : ComponentState) {target : Path} {below place : Place}
    (htarget : Target l.IsOutput l.IsStray u u' target below place) :
    Together .none (OnStage l (Aligned l u u')) (producePreview c state target)
      (producePreview c state target) := by
  unfold producePreview
  refine Step.together_files_bind fun t t' h => Step.together_layout_bind ?_
  have hroots : ∀ root ∈ l.previewRoots, l.Covers root := by
    intro root hroot
    simp only [Layout.previewRoots, List.mem_cons, List.not_mem_nil, or_false] at hroot
    rcases hroot with rfl | rfl | rfl
    · exact covers_rootOf hl .component
    · exact covers_rootOf hl .element
    · exact covers_rootOf hl .page
  rw [(h.sameTemplates hready hapart hthere).loaderOf hroots]
  refine (Step.togetherYields_orRaise _).bind fun found _ => ?_
  obtain ⟨source, template⟩ := found
  refine (Step.together_inPreviews _).bind fun body => ?_
  refine (Step.together_stylesheetHref _).bind fun stylesheet => ?_
  exact Step.together_act (together_writePage htarget _)

theorem together_renderState (hl : l.WellFormed) (hapart : l.Apart) (hready : Ready l lost u u')
    (hthere : u.entry? l.templates.parts = some .directory) (hc : IsComponent c names last)
    {d : Dependencies} (hd : ∀ p ∈ d.components, l.Holds p) (tags : List String)
    {state : ComponentState} (hstate : isStateName state.name) :
    Together lost (OnStage l (Aligned l u u')) (renderState c d tags state)
      (renderState c d tags state) := by
  obtain ⟨below, place, htarget⟩ := hready.target_preview hl hc hstate
  unfold renderState
  refine Step.together_layout_bind ?_
  dsimp only
  refine (Step.together_attempt
    (together_producePreview hl hapart hready hthere state htarget)).bind fun outcome => ?_
  split
  · exact (Step.together_failRendering _ _).bind fun _ => together_pure _
  · exact together_throw _
  · refine (Step.together_act (together_info _ _)).bind fun _ => ?_
    refine (Step.together_count _).bind fun _ => ?_
    refine Step.together_get_bind fun s session _ hmanifest => ?_
    refine Step.together_files_bind fun t t' h => ?_
    dsimp only
    rw [Manifest.addState_congr (h.sameTemplates hready hapart hthere)
      fun p hp => (hd p hp).covers]
    refine (Step.togetherYields_orRaise _).bind fun m hm => ?_
    exact (Step.together_setManifest ((Manifest.addState_eq_ok hm).1.trans hmanifest)).bind
      fun _ => together_pure _

theorem together_renderStates (hl : l.WellFormed) (hapart : l.Apart) (hready : Ready l lost u u')
    (hfile : IsTemplate l u .component templateSuffix c.file names last)
    (hc : IsComponent c names last) (text : List Char) :
    Together lost (OnStage l (Aligned l u u')) (renderStates c text) (renderStates c text) := by
  obtain ⟨below, hbelow, hleads⟩ := hc.leadsDown (Layout.IsRenewed.components.isPlain hl)
  have hholds := hfile.holds hl
  have hscan : TogetherYields lost (OnFiles (Aligned l u u'))
      (fun d => ∀ p ∈ d.components, l.Holds p) (scan l c.file) (scan l c.file) :=
    togetherYields_reads (reads_scan _ _) (reads_scan _ _)
      (fun t t' h => .of_eq (scan_congr (h.refersInside hready hapart)
        (h.sameTemplates hready hapart hfile.there) hholds))
      fun t t' d _ hd => holds_of_scan hholds hd
  have hstates : TogetherYields lost (OnFiles (Aligned l u u'))
      (fun states => ∀ state ∈ states, isStateName state.name) (loadStates c.file)
      (loadStates c.file) := by
    refine togetherYields_reads (reads_loadStates _) (reads_loadStates _)
      (fun t t' h => .of_eq ?_) fun t t' states _ hstates => (names_of_outcome hstates).1
    rw [hfile.eq]
    exact (h.sameTemplates hready hapart hfile.there).loadStates (covers_rootOf hl .component)
      fun hup => (hfile.isFileName _ (List.mem_append_left _ hup)).2.2.1 rfl
  unfold renderStates
  refine Step.together_layout_bind ?_
  refine (Step.together_act (together_ensureDirectory hleads
    (hready.way_below hl .components hbelow))).bind fun _ => ?_
  refine (Step.togetherYields_act hscan).bind fun d hd => ?_
  refine (Step.togetherYields_act hstates).bind fun states hstates => ?_
  refine (together_filterMapM fun state hstate => together_renderState hl hapart hready
    hfile.there hc hd _ (hstates state hstate)).bind fun links => ?_
  split
  · exact together_pure _
  · exact together_pure _

theorem together_renderComponent (hl : l.WellFormed) (hapart : l.Apart)
    (hready : Ready l lost u u') {file : Path}
    (hfile : IsTemplate l u .component templateSuffix file names last) :
    Together lost (OnStage l (Aligned l u u')) (renderComponent file) (renderComponent file) := by
  unfold renderComponent
  refine Step.together_files_bind fun t t' h => ?_
  rw [(h.sameTemplates hready hapart hfile.there).readText (hfile.holds hl).covers]
  split
  · split
    · exact (Step.together_failRendering _ _).bind fun _ => together_pure _
    · exact together_throw _
  · split
    · exact (Step.together_act (together_debug _ _)).bind fun _ => together_pure _
    · rename_i name _
      refine Step.together_layout_bind ?_
      have hc : IsComponent ⟨file, file.textBelow l.components, String.ofList name⟩ names
          last := by
        refine ⟨hfile.isFileName, hfile.hasSuffix, ?_⟩
        rw [hfile.eq]
        exact Path.textBelow_append (by simp)
      exact together_renderStates hl hapart hready hfile hc _

theorem together_renderComponents (hl : l.WellFormed) (hapart : l.Apart)
    (hready : Ready l lost u u') :
    Together lost (OnStage l (Aligned l u u')) renderComponents renderComponents := by
  unfold renderComponents
  refine Step.together_layout_bind (Step.together_files_bind fun t t' h => ?_)
  refine (Step.togetherYields_orRaise_alike
    (h.filesIn_alike hready hl .component templateSuffix)).bind fun files hfiles => ?_
  refine together_filterMapM fun file hfile => ?_
  obtain ⟨names, last, hfile⟩ := IsTemplate.of_filesIn hl hapart h hfiles.1 hfile
  exact together_renderComponent hl hapart hready hfile

/-! ## The index -/

theorem together_produceIndex (hl : l.WellFormed) (hready : Ready l lost u u')
    (components : List ComponentListing) :
    Together .none (OnFiles (Aligned l u u')) (produceIndex l components)
      (produceIndex l components) := by
  have hnone : ∀ name ∈ ([] : List String), IsFileName name := by simp
  have htarget : ∀ {name}, IsFileName name → Target l.IsOutput l.IsStray u u'
      (l.componentsOut / name) (l.componentsOut.parts ++ [])
      (l.componentsOut.parts ++ ([] ++ [name])) := by
    intro name hname
    rw [Path.joinText_name hname]
    exact hready.target_below hl .components hnone hname.2.2.1 fun _ => hname
  unfold produceIndex
  dsimp only
  refine (together_writePage (htarget (by decide)) _).bind fun _ => ?_
  exact together_putText (htarget (by decide)) _

theorem together_writeIndex (hl : l.WellFormed) (hready : Ready l lost u u')
    (components : List ComponentListing) :
    Together lost (OnFiles (Aligned l u u')) (writeIndex l components)
      (writeIndex l components) := by
  unfold writeIndex
  split
  · refine (together_attempt (together_produceIndex hl hready components)).bind fun outcome => ?_
    split
    · exact together_pure _
    · split
      · exact together_warn _ _
      · exact together_throw _
    · exact together_throw _
  · exact together_pure _

end

end Folio
