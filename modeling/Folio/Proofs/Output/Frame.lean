import Folio.Proofs.Output.Building
import Folio.Proofs.Output.Manifest
import Folio.Proofs.Output.Outline

/-!
# A build changes its output alone

Every step of a build keeps the invariant `Building`, whether the step succeeds or
fails, since each target is computed from names of listed files or of states.  At the
end the places outside the output are as they were.

## Strategy

`Keeps` is derived for each function, in the order in which they call each other.  Only
the targets need an argument of their own.
-/

namespace Folio

open Text FileTree

variable {l : Layout} {t₀ t t' : FileTree}

/-! ## Pages -/

theorem recordPage_keeps {page : Path} {text : List Char} :
    Keeps (Building l t₀) (recordPage page text) where
  ends s hs := by
    refine ends_recordPage hs.layout_eq ?_ fun _ log _ => building_lasting.reporting hs log
    intro d place relationships key m log _ _ _ hadd
    exact hs.of_eq rfl (Manifest.addPage_eq_ok hadd).2.1 rfl

theorem renderPage_keeps (hl : l.WellFormed) {page : Path} {names : List String} {last : String}
    (hnames : ∀ name ∈ names ++ [last], IsFileName name)
    (hsuffix : hasSuffix templateSuffix last.toList)
    (hpage : page = ⟨l.pages.anchor, l.pages.parts ++ (names ++ [last])⟩) :
    Keeps (Building l t₀) (renderPage page) := by
  have habove : ∀ name ∈ names, IsFileName name := fun name hname =>
    hnames name (List.mem_append_left _ hname)
  have hrendered : IsFileName (renderedName last) :=
    isFileName_renderedName (hnames last (by simp))
  have hproduce : Keeps (Building l t₀)
      (producePage page (page.textBelow l.pages) (l.pageOut page)) := by
    refine building_lasting.keeps_producePage fun html => ?_
    unfold Layout.pageOut Layout.pageName
    rw [hpage, joinText_renderedName _ hnames hsuffix]
    exact keeps_act (writePage_keeps hl .pages habove hrendered.2.2.1 (fun _ => hrendered)
      (not_isUpName_append_outputSuffix _) html)
  refine ⟨fun s hs => ?_⟩
  refine ends_renderPage hs.layout_eq (hproduce.ends s hs) (fun text s log hs => ?_)
    (fun _ _ hs => hs.of_eq rfl rfl rfl) fun _ _ hs _ => hs
  exact recordPage_keeps.ends _ (hs.of_eq rfl rfl rfl)

theorem renderPages_keeps (hl : l.WellFormed) : Keeps (Building l t₀) renderPages where
  ends s hs := by
    refine ends_renderPages hs.layout_eq (fun _ _ => hs) fun pages hpages => ?_
    refine (keeps_filterMapM fun page hpage => ?_).ends s hs
    obtain ⟨names, last, hlisted, hpage⟩ :=
      isListed_of_mem_filesIn (hl.rootOf .page).isCanonical.not_mem hpages hpage
    exact renderPage_keeps hl (hlisted.isFileName hs.contained.named) hlisted.hasSuffix hpage

theorem copyStaticPage_keeps (hl : l.WellFormed) (taken : List String) {page : Path}
    {names : List String} {last : String} (hnames : ∀ name ∈ names ++ [last], IsFileName name)
    (hsuffix : hasSuffix outputSuffix last.toList)
    (hpage : page = ⟨l.pages.anchor, l.pages.parts ++ (names ++ [last])⟩) :
    Keeps (Building l t₀) (copyStaticPage taken page) := by
  have hname := hnames last (by simp)
  have hcopy : Keeps (Building l t₀) (Step.act (copyPage page (l.copyOut page))) := by
    refine keeps_act (keeps_copyPage fun html => ?_)
    unfold Layout.copyOut
    rw [hpage, joinText_textBelow _ (by simp) hnames]
    exact writePage_keeps hl .pages (fun n hn => hnames n (List.mem_append_left _ hn))
      hname.2.2.1 (fun _ => hname) (not_isUpName_of_hasSuffix hsuffix) html
  refine ⟨fun s hs => ?_⟩
  exact ends_copyStaticPage hs.layout_eq (fun log _ => building_lasting.reporting hs log)
    (fun _ => hcopy.ends s hs) (fun _ _ _ hs => hs.of_eq rfl rfl rfl)
    (fun _ _ _ _ _ hs => hs.of_eq rfl rfl rfl) fun _ _ _ hs _ => hs

theorem copyStaticPages_keeps (hl : l.WellFormed) (taken : List String) :
    Keeps (Building l t₀) (copyStaticPages taken) where
  ends s hs := by
    refine ends_copyStaticPages hs.layout_eq (fun _ _ => hs) fun pages hpages => ?_
    refine (keeps_forM fun page hpage => ?_).ends s hs
    obtain ⟨names, last, hlisted, hpage⟩ :=
      isListed_of_mem_filesIn (hl.rootOf .page).isCanonical.not_mem hpages hpage
    exact copyStaticPage_keeps hl taken (hlisted.isFileName hs.contained.named) hlisted.hasSuffix
      hpage

/-! ## Previews -/

/-- A component that goes up and lies among the components themselves was there when
the build began. -/
def IsAstray (l : Layout) (t₀ : FileTree) (names : List String) (last : String) : Prop :=
  IsUpName last → names = [] → l.HasUpComponent t₀

/-- A preview is written in the output directory of components, or goes up from it. -/
theorem writePreview_keeps (hl : l.WellFormed) {c : ShownComponent} {names : List String}
    {last state : String} (hc : IsComponent c names last) (hastray : IsAstray l t₀ names last)
    (hstate : isStateName state) (html : List Char) :
    Keeps (Within l t₀)
      (writePage (l.componentsOut / c.id / (state ++ outputSuffix)) html) := by
  have hplain : l.componentsOut.IsPlain := Layout.IsRenewed.components.isPlain hl
  have hname := isFileName_state hstate
  have hnotUp := not_isUpName_append_outputSuffix state
  by_cases hup : IsUpName last
  · have hbelow := hplain.below hc.names_isFileName
    obtain ⟨below, hnames, hleads⟩ := hc.leadsTo hplain hstate
    rw [hc.place_of_isUpName hplain hstate hup] at hleads
    refine ⟨fun s hs => ?_⟩
    refine (writePage_ends hleads).mono (fun _ _ hwrites => ?_) fun _ _ hadds => ?_
    · refine Contained.writesFile hs hwrites (hplain.below hnames).names
        (fun _ => Layout.IsRenewed.components.owns_or_isPrefix) (fun husable n hn => ?_) ?_
        fun above n hplace => ?_
      · rcases List.mem_append.1 hn with h | h
        · exact hbelow.names n (List.dropLast_subset _ h)
        · obtain rfl := List.mem_singleton.1 h
          exact hname (husable _ (by simp))
      · rcases List.eq_nil_or_concat names with rfl | ⟨init, lower, rfl⟩
        · refine Or.inr ⟨hastray hup rfl, state, hstate, ?_⟩
          rw [List.append_nil, Layout.parts_componentsOut, List.dropLast_concat]
        · left
          rw [List.concat_eq_append, ← List.append_assoc, List.dropLast_concat,
            List.append_assoc]
          exact .of_componentsOut _
      · have hsame := List.singleton_inj.1 (List.append_inj' hplace rfl).2
        exact hsame ▸ hnotUp
    · exact Contained.addsBelow hs hl .components hnames hadds
  · rw [hc.preview_eq hstate]
    exact writePage_keeps hl .components (hc.stem_isFileName hup) (append_outputSuffix_ne state)
      hname hnotUp html

theorem renderState_keeps (hl : l.WellFormed) {c : ShownComponent} {names : List String}
    {last : String} (hc : IsComponent c names last) (hastray : IsAstray l t₀ names last)
    (d : Dependencies) (tags : List String) {state : ComponentState}
    (hstate : isStateName state.name) :
    Keeps (Building l t₀) (renderState c d tags state) where
  ends s hs := by
    have hproduce : Keeps (Building l t₀) (producePreview c state _) :=
      building_lasting.keeps_producePreview fun html =>
        keeps_act (writePreview_keeps hl hc hastray hstate html)
    exact ends_renderState hs.layout_eq rfl rfl (hproduce.ends s hs)
      (fun _ _ _ hs hadd => hs.of_eq rfl (Manifest.addState_eq_ok hadd).1 rfl)
      (fun _ _ _ hs => hs.of_eq rfl rfl rfl) (fun _ _ hs => hs.of_eq rfl rfl rfl)
      fun _ _ hs _ => hs

theorem renderStates_keeps (hl : l.WellFormed) {c : ShownComponent} {names : List String}
    {last : String} (hc : IsComponent c names last) (hastray : IsAstray l t₀ names last)
    (text : List Char) : Keeps (Building l t₀) (renderStates c text) := by
  obtain ⟨below, hbelow, hleads⟩ := hc.leadsDown (Layout.IsRenewed.components.isPlain hl)
  have hensure : Keeps (Within l t₀) (ensureDirectory (l.componentsOut / c.id)) :=
    ensureDirectory_keeps hl .components hbelow hleads
  refine ⟨fun s hs => ?_⟩
  refine ends_renderStates hs.layout_eq ((keeps_act hensure).ends s hs)
    (fun _ _ log hs => building_lasting.reporting hs log) fun d states s log hs hread => ?_
  have hloop : Keeps (Building l t₀) (states.filterMapM
      (renderState c d ((Source.tags text).map String.ofList))) :=
    keeps_filterMapM fun state hstate =>
      renderState_keeps hl hc hastray d _ ((names_of_outcome hread).1 state hstate)
  exact (hloop.ends _ (building_lasting.reporting hs log)).mono
    (fun _ _ hs => ⟨fun _ => hs, fun _ => hs⟩) fun _ _ hs => hs

theorem renderComponent_keeps (hl : l.WellFormed) {file : Path} {names : List String}
    {last : String} (hnames : ∀ name ∈ names ++ [last], IsFileName name)
    (hsuffix : hasSuffix templateSuffix last.toList)
    (hfile : file = ⟨l.components.anchor, l.components.parts ++ (names ++ [last])⟩) :
    Keeps (Building l t₀) (renderComponent file) := by
  have hcanonical : file.IsCanonical := by
    rw [hfile]
    exact ((hl.rootOf .component).below hnames).isCanonical
  refine ⟨fun s hs => ?_⟩
  refine ends_renderComponent hs.layout_eq (fun _ _ _ => hs.of_eq rfl rfl rfl) (fun _ _ _ => hs)
    (fun _ log _ _ => building_lasting.reporting hs log) fun text name hread hname => ?_
  have hc : IsComponent ⟨file, file.textBelow l.components, String.ofList name⟩ names last := by
    refine ⟨hnames, hsuffix, ?_⟩
    rw [hfile]
    exact Path.textBelow_append (by simp)
  have hastray : IsAstray l t₀ names last := by
    rintro hup rfl
    obtain ⟨content, hentry, htext⟩ := readText_eq_ok hcanonical hread
    rw [hfile] at hentry
    exact ⟨last, content, text, hup, hs.contained.up_eq _ last content hup hentry, htext,
      by rw [hname]; rfl⟩
  exact (renderStates_keeps hl hc hastray text).ends s hs

theorem renderComponents_keeps (hl : l.WellFormed) :
    Keeps (Building l t₀) renderComponents where
  ends s hs := by
    refine ends_renderComponents hs.layout_eq (fun _ _ => hs) fun files hfiles => ?_
    refine (keeps_filterMapM fun file hfile => ?_).ends s hs
    obtain ⟨names, last, hlisted, hfile⟩ :=
      isListed_of_mem_filesIn (hl.rootOf .component).isCanonical.not_mem hfiles hfile
    exact renderComponent_keeps hl (hlisted.isFileName hs.contained.named) hlisted.hasSuffix hfile

/-! ## The index, the stylesheet and the manifest -/

theorem produceIndex_keeps (hl : l.WellFormed) (components : List ComponentListing) :
    Keeps (Within l t₀) (produceIndex l components) := by
  have hplain : l.componentsOut.IsPlain := Layout.IsRenewed.components.isPlain hl
  have hnone : ∀ name ∈ ([] : List String), IsFileName name := by simp
  have hpage : IsFileName "index.html" := by decide
  have hdata : IsFileName "index.json" := by decide
  have hnotUp : ¬ IsUpName "index.json" := by
    rintro ⟨-, h⟩
    revert h
    decide
  unfold produceIndex
  refine .bind (writePage_keeps hl .components hnone (by decide) (fun _ => hpage)
    (not_isUpName_append_outputSuffix "index") _) fun _ => ?_
  refine ⟨fun s hs => ?_⟩
  simp only [ends_bind, Action.ends_files, Action.ends_orRaise]
  split
  · rename_i t hwritten
    have hname : "index.json" ≠ ".." := by decide
    have htarget : l.componentsOut / "index.json" =
        ⟨l.componentsOut.anchor, l.componentsOut.parts ++ ([] ++ ["index.json"])⟩ :=
      Path.joinText_name hdata
    rw [htarget] at hwritten
    have hleads := leadsTo_below hl .components hnone hname
    obtain ⟨-, -, content, rfl⟩ := writeText_eq_ok hleads hwritten
    have hplace : ∀ n ∈ l.componentsOut.parts ++ ([] ++ ["index.json"]), IsFileName n :=
      (hplain.below fun n hn => List.mem_singleton.1 hn ▸ hdata).names
    refine Action.ends_setFiles.2 (Contained.putFile hs hplace (Or.inl (.of_componentsOut _))
      fun above last hplace => ?_)
    · have hsame := List.singleton_inj.1 (List.append_inj' hplace rfl).2
      exact hsame ▸ hnotUp
  · exact hs

theorem writeIndex_keeps (hl : l.WellFormed) (components : List ComponentListing) :
    Keeps (Within l t₀) (writeIndex l components) :=
  keeps_writeIndex (produceIndex_keeps hl components)

theorem buildOutput_keeps (hl : l.WellFormed) : Keeps (Building l t₀) buildOutput := by
  have hcount : ∀ change, Keeps (Building l t₀) (Step.count change) := fun _ =>
    ⟨fun _ hs => Step.ends_count.2 (hs.of_eq rfl rfl rfl)⟩
  unfold buildOutput
  refine (Step.yields_layout fun _ hs => hs.layout_eq).bind fun l' hl' => ?_
  obtain rfl := hl'.symm
  refine .bind (keeps_act (prepareOutput_keeps hl)) fun _ => ?_
  refine .bind (renderPages_keeps hl) fun rendered => ?_
  refine .bind (copyStaticPages_keeps hl rendered) fun _ => ?_
  refine .bind (renderComponents_keeps hl) fun index => ?_
  refine .bind (hcount _) fun _ => .bind (keeps_act (writeIndex_keeps hl index)) fun _ => ?_
  refine .bind (keeps_act (copyStylesheet_keeps hl)) fun stylesheet => ?_
  exact .bind (hcount _) fun _ => yields_get.bind fun _ _ => keeps_pure _

theorem writeFile_keeps (hl : l.WellFormed) {name : String} (d : Data.Json.Document)
    (count : Nat) (hname : name = Manifest.fileName ∨ name = Manifest.canvasFileName) :
    Keeps (Within l t₀) (Manifest.writeFile l name d count) := by
  have hfile : IsFileName name := by
    rcases hname with rfl | rfl <;> decide
  have htarget : l.output / name = ⟨l.output.anchor, l.output.parts ++ [name]⟩ :=
    Path.joinText_name hfile
  have hparts : (l.output / name).parts = l.output.parts ++ [name] := by
    rw [htarget]
  have hcanonical : (l.output / name).IsCanonical := by
    rw [htarget]
    exact (hl.output.below fun n hn => List.mem_singleton.1 hn ▸ hfile).isCanonical
  refine putsFile_keeps hl hfile ?_ ?_ fun s => ?_
  · rintro ⟨h, -⟩
    revert h
    rcases hname with rfl | rfl <;> decide +kernel
  · rw [← hparts]
    rcases hname with rfl | rfl
    · exact Or.inr (Or.inr (Or.inr (Or.inl rfl)))
    · exact Or.inr (Or.inr (Or.inr (Or.inr rfl)))
  · rw [← hparts]
    exact (writeFile_ends hcanonical).mono (fun _ _ h => h) fun _ _ h => h.elim

theorem manifestWrite_keeps (hl : l.WellFormed) {m : Manifest} (hm : m.layout = l) :
    Keeps (Within l t₀) m.write := by
  subst hm
  unfold Manifest.write
  exact .bind (writeFile_keeps hl _ _ (Or.inl rfl)) fun _ =>
    .bind (writeFile_keeps hl _ _ (Or.inr rfl)) fun _ => keeps_pure _

/-! ## The frame of a build -/

theorem buildSpace_keeps (hl : l.WellFormed) (s : Space) (titleSuffix : String) :
    Keeps (Within l t₀) (buildSpace s l titleSuffix) := by
  have hvalidate : Keeps (Within l t₀) (validateSpace l) := by
    unfold validateSpace
    refine .bind Action.reads_files.keeps_within fun t => ?_
    refine .bind (Action.reads_orRaise _).keeps_within fun missing => ?_
    exact .bind (keeps_forIn fun p => (Action.reads_warn _ _).keeps_within) fun _ => keeps_pure _
  unfold buildSpace
  refine .bind (Action.reads_info _ _).keeps_within fun _ => .bind hvalidate fun _ => ?_
  refine ⟨fun session hsession => ?_⟩
  rw [ends_bind, Step.ends_fromStart]
  have hstart : Building l t₀ (Stage.start session l titleSuffix) := ⟨rfl, rfl, hsession⟩
  refine ((buildOutput_keeps hl).ends _ hstart).mono (fun output stage hstage => ?_)
    fun _ _ h => h.contained
  have hwrite : Keeps (Within l t₀) (stage.manifest.write >>= fun written =>
      pure (⟨s, output, stage.manifest.entries.length, written⟩ : SpaceResult)) :=
    .bind (manifestWrite_keeps hl hstage.manifest_eq) fun _ => keeps_pure _
  exact hwrite.ends stage.session hstage.contained

end Folio
