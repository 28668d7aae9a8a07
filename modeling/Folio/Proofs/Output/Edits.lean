import Folio.Proofs.FileTree.Following
import Folio.Proofs.Output.Building
import Folio.Proofs.Output.Outline

/-!
# What every edit keeps

Whatever path an edit is asked for, it puts an entry where no directory is, or it takes a
place away with all below it.  A property of trees that these two keep is durable: it holds
after a build if it held before, and nothing need be known of the paths.

That each place has one entry is such a property (`durable_single`), and that all entries
stand in directories is another (`durable_rooted`).

## Strategy

`Durable` is shown to pass through each function, in the order in which they call each
other.  The rules of `Outline` leave one premise for each way in which a step goes on, and
none of these changes a file.
-/

namespace Folio

open FileTree

/-! ## Trees -/

namespace FileTree

variable {P : FileTree → Prop} {t t' : FileTree} {p source : Path}

/-- A property of trees that edits keep, whatever path they are asked for. -/
structure Durable (P : FileTree → Prop) : Prop where
  put : ∀ {t : FileTree} {p : Path} {place : Place} {entry : Entry}, P t →
    t.locate p = .ok place → t.entry? place ≠ some .directory → P (t.put place entry)
  prune : ∀ {t : FileTree} {place : Place}, P t → P (t.prune place)

/-- A tree in which each place has one entry. -/
def Single (t : FileTree) : Prop :=
  (t.entries.map Prod.fst).Nodup

/-- A tree in which every entry stands in a directory. -/
def Rooted (t : FileTree) : Prop :=
  ∀ place name, t.entry? (place ++ [name]) ≠ none → t.entry? place = some .directory

theorem durable_single : Durable Single :=
  ⟨fun ht _ _ => nodup_put ht, fun ht => nodup_prune ht⟩

/-- What is above a place that a path leads to is a directory, unless there is one already. -/
theorem Rooted.exists_above (ht : t.Rooted) {place : Place} (hlocate : t.locate p = .ok place)
    (hfree : t.entry? place ≠ some .directory) :
    ∃ above name, place = above ++ [name] ∧ t.entry? above = some .directory := by
  rcases List.eq_nil_or_concat p.parts with hnil | ⟨front, last, hparts⟩
  · have hwalk := (walk_of_locate hlocate).1
    rw [hnil] at hwalk
    cases hwalk
    exact absurd rfl hfree
  · rw [List.concat_eq_append] at hparts
    by_cases hup : last = ".."
    · -- A path that goes up at its end leads into the directory above another one.
      have hwalk := (walk_of_locate hlocate).1
      rw [hparts, walk_append] at hwalk
      split at hwalk
      · rename_i here hhere
        have hdirectory := entry?_of_walk_cons hwalk
        unfold walk at hwalk
        rw [hdirectory, hup] at hwalk
        cases hwalk
        rcases List.eq_nil_or_concat here with rfl | ⟨above, name, rfl⟩
        · exact absurd rfl hfree
        · rw [List.concat_eq_append, List.dropLast_concat] at hfree
          rw [List.concat_eq_append] at hdirectory
          exact absurd (ht above name (by rw [hdirectory]; simp)) hfree
      · cases hwalk
    · obtain ⟨above, rfl, habove⟩ := exists_parent_of_locate hparts hup hlocate
      exact ⟨above, last, rfl, habove⟩

theorem durable_rooted : Durable Rooted where
  put {t p place entry} ht hlocate hfree := by
    obtain ⟨above, last, rfl, habove⟩ := ht.exists_above hlocate hfree
    intro q name hthere
    rw [entry?_put, if_neg (by simp)] at hthere
    have hdirectory : t.entry? q = some .directory := by
      split at hthere
      · rename_i hsame
        rw [(List.append_inj' hsame rfl).1, habove]
      · exact ht q name hthere
    rwa [entry?_put_of_ne]
    rintro rfl
    exact hfree hdirectory
  prune {t place} ht := by
    intro q name hthere
    by_cases hbelow : place <+: q ++ [name]
    · rw [entry?_prune, if_neg (by simp), if_pos hbelow] at hthere
      exact absurd rfl hthere
    · rw [entry?_prune_of_not_isPrefix hbelow] at hthere
      rw [entry?_prune_of_not_isPrefix fun h => hbelow (h.trans (List.prefix_append _ _))]
      exact ht q name hthere

namespace Durable

variable (hP : Durable P)

include hP

theorem ensureDirectory (ht : P t) (hmake : t.ensureDirectory p = .ok t') : P t' := by
  unfold FileTree.ensureDirectory at hmake
  split at hmake
  · rename_i made hmade
    obtain ⟨place, hlocate, hnone, rfl⟩ := makeDirectory_eq_ok hmade
    cases hmake
    exact hP.put ht hlocate (by rw [hnone]; simp)
  · split at hmake
    · cases hmake
      exact ht
    · cases hmake

theorem makeLevels (ht : P t) (count : Nat) (p : Path) : P (t.makeLevels count p).1 := by
  induction count generalizing t p with
  | zero =>
      unfold FileTree.makeLevels
      split
      · rename_i hmake
        exact hP.ensureDirectory ht hmake
      · exact ht
  | succ count ih =>
      unfold FileTree.makeLevels
      split
      · rename_i hmake
        exact hP.ensureDirectory ht hmake
      · -- The directory above is missing, so it is made first.
        have habove := ih ht p.parent
        split
        · rename_i u hlevels
          rw [hlevels] at habove
          split
          · rename_i hmake
            exact hP.ensureDirectory habove hmake
          · exact habove
        · exact habove
      · exact ht

theorem write {content : ByteArray} (ht : P t) (hwrite : t.write p content = .ok t') : P t' := by
  obtain ⟨place, hlocate, hfree, rfl⟩ := write_eq_ok hwrite
  exact hP.put ht hlocate hfree

theorem writeText (ht : P t) {text : List Char} (hwrite : t.writeText p text = .ok t') : P t' := by
  unfold FileTree.writeText at hwrite
  cases hwritten : t.write p (String.ofList text).toUTF8 with
  | error => rw [hwritten] at hwrite; cases hwrite
  | ok written =>
      rw [hwritten] at hwrite
      cases hwrite
      exact hP.write ht hwritten

theorem copyFile (ht : P t) (hcopy : t.copyFile source p = .ok t') : P t' := by
  unfold FileTree.copyFile at hcopy
  cases hread : t.read source with
  | error => rw [hread] at hcopy; cases hcopy
  | ok content =>
      cases hlocate : t.locate p with
      | error => rw [hread, hlocate] at hcopy; cases hcopy
      | ok place =>
          rw [hread, hlocate] at hcopy
          simp only [bind, Except.bind] at hcopy
          split at hcopy
          · cases hcopy
          · exact hP.write ht hcopy

end Durable

end FileTree

/-! ## Actions -/

/-- Wherever a property holds of the files, it does after an action, too. -/
abbrev KeepsFiles (P : FileTree → Prop) {α : Type} (a : Action α) : Prop :=
  Keeps (fun s : Session => P s.files) a

namespace FileTree.Durable

variable {P : FileTree → Prop} {l : Layout} {p : Path} (hP : Durable P)

include hP

theorem keeps_ensureDirectory (p : Path) : KeepsFiles P (Folio.ensureDirectory p) where
  ends s hs := by
    have hmade := hP.makeLevels hs p.parts.length p
    unfold Folio.ensureDirectory
    simp only [ends_bind, Action.ends_files, Action.ends_setFiles]
    split
    · exact ends_pure.2 hmade
    · exact ends_failBuild fun _ => hmade

theorem keeps_renewDirectory (hp : p.IsCanonical) : KeepsFiles P (renewDirectory p) where
  ends s hs := by
    unfold renewDirectory
    simp only [ends_bind, Action.ends_files]
    split
    · rename_i t hdrop
      have hdropped : P t := by
        rcases dropDirectory_eq_ok hp hdrop with ⟨rfl, -⟩ | rfl
        · exact hs
        · exact hP.prune hs
      simp only [ends_bind, Action.ends_setFiles]
      exact (hP.keeps_ensureDirectory p).ends _ hdropped
    · rw [ends_bind]
      exact ends_failBuild fun _ => hs

theorem keeps_prepareOutput (hl : l.WellFormed) : KeepsFiles P (prepareOutput l) := by
  have hrenew : ∀ {directory : Path}, l.IsRenewed directory →
      KeepsFiles P (renewDirectory directory) := fun h =>
    hP.keeps_renewDirectory (h.isPlain hl).isCanonical
  unfold prepareOutput
  exact .bind (hP.keeps_ensureDirectory _) fun _ => .bind (hrenew .pages) fun _ =>
    hrenew .components

theorem keeps_writeText (p : Path) (text : List Char) :
    KeepsFiles P (do
      let t ← Action.orRaise ((← Action.files).writeText p text)
      Action.setFiles t) where
  ends s hs := by
    simp only [ends_bind, Action.ends_files, Action.ends_orRaise]
    split
    · rename_i t hwrite
      exact Action.ends_setFiles.2 (hP.writeText hs hwrite)
    · exact hs

theorem keeps_writePage (p : Path) (html : List Char) : KeepsFiles P (writePage p html) := by
  unfold writePage
  exact .bind (hP.keeps_ensureDirectory _) fun _ => .bind (Action.reads_orRaise _).keeps fun _ =>
    hP.keeps_writeText _ _

theorem keeps_produceIndex (l : Layout) (components : List ComponentListing) :
    KeepsFiles P (produceIndex l components) := by
  unfold produceIndex
  exact .bind (hP.keeps_writePage _ _) fun _ => hP.keeps_writeText _ _

theorem keeps_copyStylesheet (l : Layout) : KeepsFiles P (copyStylesheet l) where
  ends s hs := by
    unfold copyStylesheet
    simp only [ends_bind, Action.ends_files, Action.ends_orRaise]
    split
    · split
      · simp only [ends_bind, Action.ends_warn, ends_pure]
        exact hs
      · split
        · rename_i t hcopy
          simp only [ends_bind, Action.ends_setFiles, ends_pure]
          exact hP.copyFile hs hcopy
        · simp only [ends_bind, Action.ends_warn, ends_pure]
          exact hs
    · exact hs

theorem keeps_writeFile (l : Layout) (name : String) (d : Data.Json.Document) (count : Nat) :
    KeepsFiles P (Manifest.writeFile l name d count) where
  ends s hs := by
    unfold Manifest.writeFile
    simp only [ends_bind, Action.ends_files]
    split
    · rename_i t hwrite
      simp only [ends_bind, Action.ends_setFiles, Action.ends_info, ends_pure]
      exact hP.writeText hs hwrite
    · simp only [ends_bind, Action.ends_warn, ends_pure]
      exact hs

theorem keeps_manifestWrite (m : Manifest) : KeepsFiles P m.write := by
  unfold Manifest.write
  exact .bind (hP.keeps_writeFile _ _ _ _) fun _ => .bind (hP.keeps_writeFile _ _ _ _) fun _ =>
    keeps_pure _

end FileTree.Durable

/-! ## Steps of a build -/

/-- A build with files of which a property holds. -/
def HasFiles (P : FileTree → Prop) (s : Stage) : Prop :=
  P s.session.files

section

variable {P : FileTree → Prop}

theorem hasFiles_lasting : Lasting (HasFiles P) :=
  ⟨fun hs _ _ hfiles _ => by rwa [HasFiles, hfiles]⟩

theorem keepsFiles_act {α : Type} {a : Action α} (ha : KeepsFiles P a) :
    Keeps (HasFiles P) (Step.act a) :=
  ⟨fun s hs => Step.ends_act.2 (ha.ends s.session hs)⟩

theorem keepsFiles_count (change : BuildResult → BuildResult) :
    Keeps (HasFiles P) (Step.count change) :=
  ⟨fun _ hs => Step.ends_count.2 hs⟩

end

namespace FileTree.Durable

variable {P : FileTree → Prop} {l : Layout} (hP : Durable P)

include hP

theorem keeps_renderPage (page : Path) : Keeps (HasFiles P) (renderPage page) where
  ends s hs := by
    have hproduce : Keeps (HasFiles P)
        (producePage page (page.textBelow s.layout.pages) (s.layout.pageOut page)) :=
      hasFiles_lasting.keeps_producePage fun html => keepsFiles_act (hP.keeps_writePage _ html)
    refine ends_renderPage rfl (hproduce.ends s hs) (fun text s' log hs' => ?_)
      (fun _ _ hs' => hs') fun _ _ hs' _ => hs'
    exact ends_recordPage rfl (fun _ _ _ _ _ _ _ _ _ _ => hs') fun _ _ _ => hs'

theorem keeps_renderPages : Keeps (HasFiles P) renderPages where
  ends s hs := ends_renderPages rfl (fun _ _ => hs) fun _ _ =>
    (keeps_filterMapM fun page _ => hP.keeps_renderPage page).ends s hs

theorem keeps_copyStaticPage (taken : List String) (page : Path) :
    Keeps (HasFiles P) (copyStaticPage taken page) where
  ends s hs := by
    have hcopy : Keeps (HasFiles P) (Step.act (copyPage page (s.layout.copyOut page))) :=
      keepsFiles_act (keeps_copyPage (hP.keeps_writePage _))
    exact ends_copyStaticPage rfl (fun _ _ => hs) (fun _ => hcopy.ends s hs)
      (fun _ _ _ hs' => hs') (fun _ _ _ _ _ hs' => hs') fun _ _ _ hs' _ => hs'

theorem keeps_copyStaticPages (taken : List String) :
    Keeps (HasFiles P) (copyStaticPages taken) where
  ends s hs := ends_copyStaticPages rfl (fun _ _ => hs) fun _ _ =>
    (keeps_forM fun page _ => hP.keeps_copyStaticPage taken page).ends s hs

theorem keeps_renderState (c : ShownComponent) (d : Dependencies) (tags : List String)
    (state : ComponentState) : Keeps (HasFiles P) (renderState c d tags state) where
  ends s hs := by
    have hproduce : Keeps (HasFiles P) (producePreview c state
        (s.layout.componentsOut / c.id / (state.name ++ outputSuffix))) :=
      hasFiles_lasting.keeps_producePreview fun html => keepsFiles_act (hP.keeps_writePage _ html)
    exact ends_renderState rfl rfl rfl (hproduce.ends s hs) (fun _ _ _ hs' _ => hs')
      (fun _ _ _ hs' => hs') (fun _ _ hs' => hs') fun _ _ hs' _ => hs'

theorem keeps_renderStates (c : ShownComponent) (text : List Char) :
    Keeps (HasFiles P) (renderStates c text) where
  ends s hs := by
    have hensure : Keeps (HasFiles P)
        (Step.act (Folio.ensureDirectory (s.layout.componentsOut / c.id))) :=
      keepsFiles_act (hP.keeps_ensureDirectory _)
    refine ends_renderStates rfl (hensure.ends s hs) (fun _ _ _ hs' => hs')
      fun d states s' log hs' _ => ?_
    have hloop : Keeps (HasFiles P) (states.filterMapM
        (renderState c d ((Source.tags text).map String.ofList))) :=
      keeps_filterMapM fun state _ => hP.keeps_renderState c d _ state
    exact (hloop.ends (s'.reporting log) hs').mono (fun _ _ hs'' => ⟨fun _ => hs'', fun _ => hs''⟩)
      fun _ _ hs'' => hs''

theorem keeps_renderComponent (file : Path) : Keeps (HasFiles P) (renderComponent file) where
  ends s hs := ends_renderComponent rfl (fun _ _ _ => hs) (fun _ _ _ => hs) (fun _ _ _ _ => hs)
    fun _ _ _ _ => (hP.keeps_renderStates _ _).ends s hs

theorem keeps_renderComponents : Keeps (HasFiles P) renderComponents where
  ends s hs := ends_renderComponents rfl (fun _ _ => hs) fun _ _ =>
    (keeps_filterMapM fun file _ => hP.keeps_renderComponent file).ends s hs

theorem keeps_buildOutput {titleSuffix : String} {s : Session} (hl : l.WellFormed)
    (hs : P s.files) : Ends buildOutput (Stage.start s l titleSuffix) (fun _ => HasFiles P)
      fun _ => HasFiles P := by
  unfold buildOutput
  rw [ends_bind, Step.ends_layout]
  refine Keeps.ends (I := HasFiles P) ?_ _ hs
  refine .bind (keepsFiles_act (hP.keeps_prepareOutput hl)) fun _ => ?_
  refine .bind hP.keeps_renderPages fun rendered => ?_
  refine .bind (hP.keeps_copyStaticPages rendered) fun _ => ?_
  refine .bind hP.keeps_renderComponents fun index => .bind (keepsFiles_count _) fun _ => ?_
  refine .bind (keepsFiles_act (keeps_writeIndex (hP.keeps_produceIndex l index))) fun _ => ?_
  refine .bind (keepsFiles_act (hP.keeps_copyStylesheet l)) fun stylesheet => ?_
  exact .bind (keepsFiles_count _) fun _ => .bind yields_get.keeps fun _ => keeps_pure _

/-- The build of a space, whether it gives a result or fails. -/
theorem keeps_buildSpace (hl : l.WellFormed) (space : Space) (titleSuffix : String) :
    KeepsFiles P (buildSpace space l titleSuffix) := by
  have hvalidate : KeepsFiles P (validateSpace l) := by
    unfold validateSpace
    refine .bind Action.reads_files.keeps fun t => .bind (Action.reads_orRaise _).keeps fun _ => ?_
    exact .bind (keeps_forIn fun p => (Action.reads_warn _ _).keeps) fun _ => keeps_pure _
  unfold buildSpace
  refine .bind (Action.reads_info _ _).keeps fun _ => .bind hvalidate fun _ => ⟨fun s hs => ?_⟩
  rw [ends_bind, Step.ends_fromStart]
  refine (hP.keeps_buildOutput hl hs).mono (fun output stage hstage => ?_) fun _ _ h => h
  have hwrite : KeepsFiles P (stage.manifest.write >>= fun written =>
      pure (⟨space, output, stage.manifest.entries.length, written⟩ : SpaceResult)) :=
    .bind (hP.keeps_manifestWrite _) fun _ => keeps_pure _
  exact hwrite.ends stage.session hstage

end FileTree.Durable

end Folio
