import Folio.Proofs.Markup.Typeset

/-!
# The shape of a printed text

What a formatter has taken in is, part by part, in the lines that it has written, in the run that
it collects, or open (`Tracks`).  `tracks_step` is the step lemma: a token adds its parts,
whatever was wanted before and after the lines that it ends.

`prettify_shape` is the statement for texts.  What is printed are the parts of the text in their
order, with a blank line between two of them at most; so empty lines follow one another only
inside of a part, and blank lines at the ends are cut off.
-/

namespace Folio.Markup

open Text

/-! ## Lines and collected parts -/

/-- Lines in which parts stand, and which others may follow. -/
def Shows (lines : List (List Char)) (parts : List TextPart) : Prop :=
  ∃ ps, Typeset lines ps ∧ EndsInLine ps ∧ ps.map Placed.part = parts

theorem shows_nil : Shows [] [] :=
  ⟨[], typeset_nil, by simp [EndsInLine], rfl⟩

theorem Shows.append {lines more gap : List (List Char)} {parts next : List TextPart}
    (h : Shows lines parts) (hnext : Shows more next) (hmore : more ≠ [])
    (hgap : IsBreak lines gap) : Shows (lines ++ gap ++ more) (parts ++ next) := by
  obtain ⟨ps, hps, hends, rfl⟩ := h
  obtain ⟨qs, hqs, hlast, rfl⟩ := hnext
  obtain ⟨added, hadded, hparts, hends'⟩ := hps.append hends hqs hmore hgap
  exact ⟨ps ++ added, hadded, hends' hlast, by rw [List.map_append, hparts]⟩

/-- The parts that a state has written or collects in its inline run. -/
def Carries (s : State) (parts : List TextPart) : Prop :=
  ∃ shown pending, Shows s.lines shown ∧ Collected s.atoms pending ∧ parts = shown ++ pending

section

variable {s : State} {parts : List TextPart} {p : TextPart}

theorem Shows.carries (h : Shows s.lines parts) (hatoms : s.atoms = []) : Carries s parts :=
  ⟨parts, [], h, by rw [hatoms]; exact .nil, by simp⟩

theorem Collected.text_ne_nil {atoms : List Atom} (h : Collected atoms parts) :
    ∀ a ∈ atoms, a.text ≠ [] := by
  induction h with
  | nil => simp
  | cons hap _ ih => exact List.forall_mem_cons.mpr ⟨hap.1 ▸ hap.2.edged.ne_nil, ih⟩

theorem Carries.shows (h : Carries s parts) (hatoms : s.atoms = []) : Shows s.lines parts := by
  obtain ⟨shown, pending, hshown, hpending, rfl⟩ := h
  rw [hatoms] at hpending
  cases hpending
  rw [List.append_nil]
  exact hshown

/-- Ending the inline run writes all that is carried. -/
theorem Carries.flush (h : Carries s parts) : Shows s.flush.lines parts ∧ s.flush.atoms = [] := by
  by_cases hatoms : s.atoms = []
  · rw [State.flush_of_no_atoms hatoms]
    exact ⟨h.shows hatoms, hatoms⟩
  · obtain ⟨shown, pending, hshown, hpending, rfl⟩ := h
    rw [State.flush_of_atoms hatoms hpending.text_ne_nil]
    have hwrap := wrap_ne_nil s.width s.depth hatoms hpending.text_ne_nil
    exact ⟨hshown.append (exists_typeset_wrap s.width s.depth hpending hatoms)
      (by simpa using hwrap) s.isBreak_gapLine, rfl⟩

theorem Carries.addAtom (h : Carries s parts) (hp : p.Inline) :
    Carries (s.addAtom p.text) (parts ++ [p]) := by
  obtain ⟨shown, pending, hshown, hpending, rfl⟩ := h
  exact ⟨shown, pending ++ [p], hshown, List.rel_append hpending (.cons ⟨rfl, hp⟩ .nil),
    List.append_assoc _ _ _⟩

/-- Flowing text adds its words. -/
theorem Carries.flow (h : Carries s parts) (text : List Char) :
    Carries (s.flow text) (parts ++ (Token.data text).parts) := by
  obtain ⟨shown, pending, hshown, hpending, rfl⟩ := h
  obtain ⟨more, spaced, wanted, after, hflow, hmore⟩ := s.flow_spec text
  have hwords : Collected more (Token.data text).parts := by
    have hwell : ∀ p ∈ (Token.data text).parts, p.WellFormed := Token.wellFormed_parts trivial
    rw [Token.parts, ← hmore, List.map_map] at hwell ⊢
    refine List.forall₂_map_right_iff.mpr (List.forall₂_same.mpr fun a ha => ⟨rfl, .inl rfl, ?_⟩)
    exact hwell _ (List.mem_map_of_mem ha)
  rw [hflow]
  exact ⟨shown, pending ++ (Token.data text).parts, hshown, List.rel_append hpending hwords,
    List.append_assoc _ _ _⟩

theorem Shows.emit (h : Shows s.lines parts) (hprints : p.Prints p.text) (hp : Edged p.text) :
    Shows (s.emit p.text).lines (parts ++ [p]) := by
  obtain ⟨htypeset, hends⟩ := typeset_line s.depth hprints hp
  exact h.append ⟨_, htypeset, hends, rfl⟩ (List.cons_ne_nil _ _) s.isBreak_gapLine

theorem verbatimLines_ne_nil (depth : Nat) (text : List Char) : verbatimLines depth text ≠ [] := by
  obtain ⟨first, rest, -, hlines⟩ := exists_verbatimLines depth text
  simp [hlines]

theorem Shows.emitLines (h : Shows s.lines parts) (hprints : p.Prints p.text)
    (hp : Edged p.text) : Shows (s.emitLines p.text).lines (parts ++ [p]) := by
  rw [State.lines_emitLines, ← List.append_assoc]
  refine h.append ⟨_, typeset_verbatimLines s.depth hprints hp.ne_nil hp.head, ?_, rfl⟩
    (verbatimLines_ne_nil _ _) s.isBreak_gapLine
  rintro q ⟨⟩
  exact hp.last

theorem lines_closeElement (s : State) (name : String) :
    (s.closeElement name).lines = s.lines ∧ (s.closeElement name).atoms = s.atoms := by
  obtain ⟨stack, depth, hclose⟩ := s.closeElement_spec name
  rw [hclose]
  exact ⟨rfl, rfl⟩

/-- A comment or the like stands on lines of its own. -/
theorem Carries.block (h : Carries s parts) (hs : s.IsFlow) (hprints : p.Prints p.text)
    (hp : Enclosed p.text) : Carries (s.block p.text) (parts ++ [p]) := by
  obtain ⟨hshown, hatoms⟩ := h.flush
  obtain ⟨lines, hemit, -⟩ := s.flush.emitLines_spec p.text
  have hblock : s.block p.text = s.flush.emitLines p.text := by
    simp only [State.block, hs.1]
  rw [hblock]
  exact (hshown.emitLines hprints hp.edged).carries (by rw [hemit]; exact hatoms)

/-- A tag in running text joins the inline run or stands on a line of its own. -/
theorem Carries.tag (h : Carries s parts) {source : List Char} (hsource : Enclosed source)
    {t : State} (ht : t = s.addAtom source ∨
      ∃ u : State, u.lines = s.flush.lines ∧ u.atoms = s.flush.atoms ∧
        t.lines = (u.emit source).lines ∧ t.atoms = u.atoms) :
    Carries t (parts ++ [⟨.tag, source⟩]) := by
  rcases ht with rfl | ⟨u, hlines, hatoms, ht, htatoms⟩
  · exact h.addAtom (p := ⟨.tag, source⟩) ⟨.inr (.inr rfl), hsource⟩
  · obtain ⟨hshown, hnone⟩ := h.flush
    rw [← hlines] at hshown
    refine Shows.carries ?_ (by rw [htatoms, hatoms, hnone])
    rw [ht]
    exact hshown.emit (p := ⟨.tag, source⟩) rfl hsource.edged

/-- Outside of regions, a token that opens none adds its parts. -/
theorem Carries.step (h : Carries s parts) (hs : s.IsFlow) {token : Token} (htidy : token.Tidy)
    (hflow : Region.flow.after token = .flow) : Carries (s.step token) (parts ++ token.parts) := by
  have hparts := Token.wellFormed_parts htidy
  cases token with
  | data text =>
      rw [hs.step_data]
      exact h.flow text
  | startTag name source =>
      obtain ⟨hverbatim, hscript⟩ : verbatimElements.contains name = false ∧
          scriptElements.contains name = false := by
        rw [Region.after] at hflow
        split at hflow
        · cases hflow
        · rename_i hverbatim
          split at hflow
          · cases hflow
          · rename_i hscript
            exact ⟨by simpa using hverbatim, by simpa using hscript⟩
      rw [Token.parts, if_neg (by simp only [isRegion, hverbatim, hscript]; decide)]
      refine h.tag htidy ?_
      simp only [State.step, State.openTag, hs.1, hverbatim, hscript, Bool.false_eq_true, if_false]
      split
      · exact .inl rfl
      · refine .inr ⟨s.flush, rfl, rfl, ?_⟩
        split <;> exact ⟨rfl, rfl⟩
  | emptyTag name source =>
      refine h.tag htidy ?_
      simp only [State.step, State.emptyTag, hs.1]
      split
      · exact .inl rfl
      · exact .inr ⟨s.flush, rfl, rfl, rfl, rfl⟩
  | endTag name =>
      refine h.tag (enclosed_closing name) ?_
      simp only [State.step, State.closeTag, hs.1, hs.2]
      split
      · exact .inl rfl
      · obtain ⟨hlines, hatoms⟩ := lines_closeElement s.flush name
        exact .inr ⟨s.flush.closeElement name, hlines, hatoms, rfl, rfl⟩
  | entity name | charCode digits =>
      simp only [State.step, State.reference, hs.1, hs.2]
      exact h.addAtom ⟨.inr (.inl rfl), hparts _ List.mem_cons_self⟩
  | comment text | declaration text | markedSection text =>
      exact h.block (p := ⟨.remark, _⟩) hs rfl (hparts _ List.mem_cons_self)
  | instruction text =>
      exact h.block (p := ⟨.instruction, _⟩) hs rfl (hparts _ List.mem_cons_self)

end

/-! ## States and what is open -/

/-- A state has taken in some parts, and holds what is open. -/
structure Tracks (o : Opened) (s : State) (parts : List TextPart) : Prop where
  carries : Carries s parts
  region : s.region = o.region
  verbatim : ∀ v, s.verbatim = some v → v.pieces.flatten = o.source ++ o.body
  script : ∀ script, s.script = some script →
    script.source = o.source ∧ script.body.flatten = o.body

theorem tracks_start (width : Int) : Tracks .start (State.start width) [] where
  carries := shows_nil.carries rfl
  region := rfl
  verbatim := by simp [State.start]
  script := by simp [State.start]

section

variable {c c' : Context} {s : State} {o : Opened} {token : Token} {parts : List TextPart}

/-- Where nothing is open, only what is carried matters. -/
theorem tracks_of_flow (hcarries : Carries s parts) (hregion : s.region = o.region)
    (hflow : o.region = .flow) : Tracks o s parts := by
  obtain ⟨hverbatim, hscript⟩ := State.isFlow_of_region (hregion.trans hflow)
  exact ⟨hcarries, hregion, by simp [hverbatim], by simp [hscript]⟩

theorem tracks_step_of_flow (hregion : (s.step token).region = s.region.after token)
    (htidy : token.Tidy) (h : Tracks o s parts) (hflow : o.region = .flow) :
    Tracks (o.after token) (s.step token) (parts ++ o.adds token) := by
  have hs : s.IsFlow := State.isFlow_of_region (h.region.trans hflow)
  rw [h.region, hflow] at hregion
  rw [Opened.after, if_pos hflow, Opened.adds, if_pos hflow, hflow]
  obtain ⟨hshown, hatoms⟩ := h.carries.flush
  -- the start tag of a verbatim or script element is held back
  rcases State.step_of_isFlow hs token with ⟨name, source, rfl, hname, hstep⟩ |
      ⟨name, source, rfl, hname, hstep⟩ | hafter
  · have hnone : s.flush.script = none := hs.flush.2
    rw [Token.parts, if_pos (by simp only [isRegion, hname, Bool.true_or]), List.append_nil]
    rw [hstep] at hregion ⊢
    refine ⟨hshown.carries hatoms, hregion, ?_, by simp [hnone]⟩
    rintro v ⟨⟩
    simp [Token.piece]
  · have hnone : s.flush.verbatim = none := hs.flush.1
    rw [Token.parts, if_pos (by simp only [isRegion, hname, Bool.or_true]), List.append_nil]
    rw [hstep] at hregion ⊢
    refine ⟨hshown.carries hatoms, hregion, by simp [hnone], ?_⟩
    rintro script ⟨⟩
    exact ⟨rfl, rfl⟩
  · exact tracks_of_flow (h.carries.step hs htidy hafter) hregion hafter

/-- A verbatim element that is not closed by a token is still open. -/
theorem isVerbatim_after {element : String} {nesting : Nat}
    (hopen : (Region.verbatim element nesting).after token ≠ .flow) :
    ((Region.verbatim element nesting).after token).isVerbatim := by
  cases token with
  | endTag name =>
      rw [Region.after] at hopen ⊢
      split
      · rename_i hname
        rw [if_pos hname] at hopen
        split
        · rename_i hnesting
          exact absurd (if_pos hnesting) hopen
        · rfl
      · rfl
  | _ => rfl

theorem atoms_emitVerbatim (s : State) (v : Verbatim) : (s.emitVerbatim v).atoms = s.atoms := by
  obtain ⟨lines, hemit, -⟩ := { s with verbatim := none }.emitLines_spec v.pieces.flatten
  rw [State.emitVerbatim, hemit]

/-- In a verbatim element, tokens are copied up to the end tag that closes it. -/
theorem tracks_step_of_verbatim (hfits : Fits c s)
    (hregion : (s.step token).region = s.region.after token) (ho : o.WellFormed)
    (h : Tracks o s parts) {element : String} {nesting : Nat}
    (hverbatim : o.region = .verbatim element nesting) :
    Tracks (o.after token) (s.step token) (parts ++ o.adds token) := by
  have hopen : o.region ≠ .flow := by simp [hverbatim]
  obtain ⟨v, hv⟩ : ∃ v, s.verbatim = some v :=
    State.exists_verbatim (by rw [h.region, hverbatim]; rfl)
  have hscript : s.script = none := hfits.script_of_verbatim hv
  have hheld := h.verbatim v hv
  have hafter : (o.after token).region = o.region.after token := by rw [Opened.after, if_neg hopen]
  rw [Opened.adds, if_neg hopen]
  by_cases hclosed : o.region.after token = .flow
  · -- the element is written, behind the lines before it
    obtain ⟨rest, hsource⟩ : ∃ rest, o.source = '<' :: rest := by
      obtain ⟨inner, hinner⟩ := ho hopen
      exact ⟨inner ++ ['>'], hinner⟩
    have hinside : s.region.isVerbatim := by rw [h.region, hverbatim]; rfl
    have hcopied : s.copied = o.source ++ o.body := by rw [State.copied, hv]; exact hheld
    have hlines := State.lines_step_of_closed token hinside
      (by rw [h.region, hclosed]; rfl)
    obtain ⟨rfl, hnesting⟩ : token = .endTag v.element ∧ v.nesting ≤ 1 :=
      Region.eq_endTag_of_closed (by
        rw [← State.region_verbatim hv, h.region, hclosed]; rfl)
    have hnone := hfits.verbatim_alone v hv
    have hatoms : (s.step (.endTag v.element)).atoms = [] := by
      simp only [State.step, State.closeTag, hv, if_true, if_pos hnesting]
      exact (atoms_emitVerbatim s _).trans hnone
    have hshown := h.carries.shows hnone
    rw [if_pos hclosed, Opened.closed, hverbatim]
    refine tracks_of_flow (Shows.carries ?_ hatoms) (by rw [hregion, hafter, h.region])
      (hafter.trans hclosed)
    rw [hlines, hcopied, ← List.append_assoc]
    have hends : Edged (o.source ++ o.body ++ (Token.endTag v.element).piece) := by
      refine Enclosed.edged ⟨rest ++ o.body ++ '<' :: '/' :: v.element.toList, ?_⟩
      simp [hsource, Token.piece, closing]
    refine Shows.append hshown ⟨_, typeset_verbatimLines s.depth
      (p := ⟨.verbatim, o.source ++ o.body ++ (Token.endTag v.element).piece⟩) rfl hends.ne_nil
      hends.head, ?_, rfl⟩ (verbatimLines_ne_nil _ _) s.isBreak_gapLine
    rintro q ⟨⟩
    exact hends.last
  · have hinside : (s.region.after token).isVerbatim := by
      rw [h.region, hverbatim]
      rw [hverbatim] at hclosed
      exact isVerbatim_after hclosed
    obtain ⟨nesting, hstep⟩ := State.exists_step_eq_copy hv hinside
    rw [if_neg hclosed, List.append_nil]
    rw [hstep] at hregion ⊢
    refine ⟨h.carries, by rw [hregion, hafter, h.region], ?_, by simp [State.copy, hscript]⟩
    rintro w ⟨⟩
    rw [Opened.after, if_neg hopen]
    simp [hheld]

theorem lines_writeLines (s : State) (first : List Char) (rest : List (List Char)) :
    (s.writeLines (first :: rest)).lines =
      s.lines ++ s.gapLine ++ ((indent s.depth ++ first) :: rest) := by
  simp [State.writeLines, State.emit_eq]

/-- A script element is written with its end tag. -/
theorem Shows.emitScript (h : Shows s.lines parts) (script : Script)
    (hsource : Enclosed script.source) :
    Shows (s.emitScript script).lines (parts ++
      scriptParts script.source script.body.flatten (closing script.element)) := by
  rw [State.emitScript_eq, scriptParts]
  split
  · obtain ⟨htypeset, hends⟩ := typeset_emptyScript s.depth script.element hsource
    rw [lines_writeLines]
    exact h.append ⟨_, htypeset, hends, rfl⟩ (List.cons_ne_nil _ _) s.isBreak_gapLine
  · obtain ⟨htypeset, hends⟩ :=
      typeset_scriptBlock s.depth script.element hsource script.body.flatten
    rw [lines_writeLines]
    exact h.append ⟨_, htypeset, hends, rfl⟩ (List.cons_ne_nil _ _) s.isBreak_gapLine

theorem fields_emitScript (s : State) (script : Script) :
    (s.emitScript script).atoms = s.atoms ∧ (s.emitScript script).verbatim = s.verbatim := by
  obtain ⟨lines, hemit, -⟩ := s.emitScript_spec script
  rw [hemit]
  exact ⟨rfl, rfl⟩

theorem exists_script {element : String} (h : s.region = .script element) :
    ∃ script, s.script = some script ∧ script.element = element := by
  unfold State.region at h
  split at h
  · cases h
  · rename_i script _ hscript
    cases h
    exact ⟨script, hscript, rfl⟩
  · cases h

/-- In a script, data is collected up to the end tag. -/
theorem tracks_step_of_script (hfits : Fits c s) (hnext : c.after? token = some c')
    (hregion : (s.step token).region = s.region.after token) (ho : o.WellFormed)
    (h : Tracks o s parts) {element : String} (hopened : o.region = .script element) :
    Tracks (o.after token) (s.step token) (parts ++ o.adds token) := by
  have hopen : o.region ≠ .flow := by simp [hopened]
  have hafter : (o.after token).region = o.region.after token := by rw [Opened.after, if_neg hopen]
  obtain ⟨script, hscript, rfl⟩ := exists_script (h.region.trans hopened)
  obtain ⟨hverbatim, hatoms⟩ := hfits.script_alone script hscript
  obtain ⟨hsource, hbody⟩ := h.script script hscript
  rw [hfits.script_context script hscript] at hnext
  rw [Opened.adds, if_neg hopen]
  cases token with
  | data content =>
      have hstep : s.step (.data content) = s.collect script content :=
        State.text_script hverbatim hscript content
      rw [hopened, if_neg (by simp [Region.after]), List.append_nil]
      rw [hstep] at hregion ⊢
      refine ⟨h.carries, by rw [hregion, hafter, h.region], by simp [State.collect, hverbatim], ?_⟩
      rintro collected ⟨⟩
      rw [Opened.after, if_neg hopen]
      exact ⟨hsource, by simp [hbody, Token.piece]⟩
  | endTag name =>
      obtain rfl : name = script.element := eq_of_after?_endTag hnext
      have hclosed : o.region.after (.endTag script.element) = .flow := by
        rw [hopened, Region.after, if_pos rfl]
      have hstep : s.step (.endTag script.element) = s.emitScript script :=
        State.closeTag_script hverbatim hscript
      have hshown := (h.carries.shows hatoms).emitScript script (hsource ▸ ho hopen)
      rw [if_pos hclosed, Opened.closed, hopened, ← hsource, ← hbody]
      rw [hstep] at hregion ⊢
      exact tracks_of_flow (hshown.carries ((fields_emitScript s script).1.trans hatoms))
        (by rw [hregion, hafter, h.region]) (hafter.trans hclosed)
  | _ => cases hnext

/-- **A token adds its parts.** -/
theorem tracks_step (hfits : Fits c s) (hnext : c.after? token = some c') (htidy : token.Tidy)
    (ho : o.WellFormed) (h : Tracks o s parts) :
    Tracks (o.after token) (s.step token) (parts ++ o.adds token) := by
  have hregion := (advances_step hfits hnext).region
  cases hopened : o.region with
  | flow => exact tracks_step_of_flow hregion htidy h hopened
  | verbatim element nesting => exact tracks_step_of_verbatim hfits hregion ho h hopened
  | script element => exact tracks_step_of_script hfits hnext hregion ho h hopened

/-- The end of a text adds what is still open. -/
theorem exists_typeset_finish (hfits : Fits c s) (ho : o.WellFormed) (h : Tracks o s parts) :
    ∃ ps, Typeset s.finish.lines ps ∧ ps.map Placed.part = parts ++ o.rest := by
  cases hopened : o.region with
  | flow =>
      obtain ⟨hverbatim, hscript⟩ := State.isFlow_of_region (h.region.trans hopened)
      have hfinish : s.finish = s.flush := by simp only [State.finish, hverbatim, hscript]
      obtain ⟨⟨ps, hps, -, hparts⟩, -⟩ := h.carries.flush
      rw [hfinish]
      exact ⟨ps, hps, by simp [hparts, Opened.rest, Opened.closed, hopened]⟩
  | verbatim element nesting =>
      obtain ⟨v, hv⟩ : ∃ v, s.verbatim = some v :=
        State.exists_verbatim (by rw [h.region, hopened]; rfl)
      have hatoms := hfits.verbatim_alone v hv
      have hfinish : s.finish = (s.emitVerbatim v).flush := by
        simp only [State.finish, hfits.script_of_verbatim hv, hv]
      have hlines : s.finish.lines =
          s.lines ++ s.gapLine ++ verbatimLines s.depth (o.source ++ o.body ++ []) := by
        rw [hfinish, State.flush_of_no_atoms ((atoms_emitVerbatim s v).trans hatoms),
          List.append_nil, ← h.verbatim v hv, List.append_assoc]
        exact State.lines_emitLines _ _
      obtain ⟨inner, hsource⟩ := ho (by simp [hopened])
      -- nothing follows, so that the element may end with a line end
      obtain ⟨ps, hps, hends, rfl⟩ := h.carries.shows hatoms
      obtain ⟨added, hadded, hparts, -⟩ := hps.append hends
        (typeset_verbatimLines s.depth (p := ⟨.verbatim, o.source ++ o.body ++ []⟩) rfl
          (by simp [hsource]) (by simp [hsource])) (verbatimLines_ne_nil _ _) s.isBreak_gapLine
      rw [hlines]
      exact ⟨ps ++ added, hadded, by simp [hparts, Opened.rest, Opened.closed, hopened]⟩
  | script element =>
      obtain ⟨script, hscript, rfl⟩ := exists_script (h.region.trans hopened)
      obtain ⟨hverbatim, hatoms⟩ := hfits.script_alone script hscript
      obtain ⟨hsource, hbody⟩ := h.script script hscript
      obtain ⟨hsame, hnone⟩ := fields_emitScript s script
      have hfinish : s.finish = (s.emitScript script).flush := by
        simp only [State.finish, hscript, hnone, hverbatim]
      obtain ⟨ps, hps, -, hparts⟩ := (h.carries.shows hatoms).emitScript script
        (hsource ▸ ho (by simp [hopened]))
      rw [hfinish, State.flush_of_no_atoms (hsame.trans hatoms)]
      exact ⟨ps, hps, by simp [hparts, Opened.rest, Opened.closed, hopened, hsource, hbody]⟩

end

/-! ## Runs -/

/-- Tokens that the reader can give one after another add their parts. -/
theorem exists_typeset_foldl {c c' : Context} {s : State} {o : Opened} {parts : List TextPart}
    {ts : List Token} (hfits : Fits c s) (hts : Follows c ts c') (htidy : Tidy ts)
    (ho : o.WellFormed) (h : Tracks o s parts) :
    ∃ ps, Typeset (ts.foldl State.step s).finish.lines ps ∧
      ps.map Placed.part = parts ++ partsFrom o ts := by
  induction ts generalizing c s o parts with
  | nil => exact exists_typeset_finish hfits ho h
  | cons token ts ih =>
      obtain ⟨next, hnext, hrest⟩ := follows_cons.mp hts
      obtain ⟨htoken, htidy⟩ := List.forall_mem_cons.mp htidy
      obtain ⟨ps, hps, hparts⟩ := ih (advances_step hfits hnext).fits hrest htidy
        (ho.after htoken) (tracks_step hfits hnext htoken ho h)
      exact ⟨ps, hps, by rw [hparts, partsFrom, List.append_assoc]⟩

/-- The lines of a text are its parts. -/
theorem exists_typeset_layOut (width : Int) {text : List Char} {ts : List Token}
    (h : tokens text = .ok ts) :
    ∃ ps, Typeset (layOut width ts) ps ∧ ps.map Placed.part = partsOf ts := by
  obtain ⟨c, hfollows⟩ := follows_tokens h
  exact exists_typeset_foldl (fits_start width) hfollows (tidy_tokens h) (fun hopen => absurd rfl hopen)
    (tracks_start width)

/-! ## Blank lines at the ends -/

theorem mem_of_mem_joinWith {mark c : Char} {lines : List (List Char)}
    (h : c ∈ joinWith [mark] lines) : c = mark ∨ ∃ line ∈ lines, c ∈ line := by
  induction lines with
  | nil => cases h
  | cons line rest ih =>
      by_cases hrest : rest = []
      · rw [hrest, joinWith_singleton] at h
        exact .inr ⟨line, List.mem_cons_self, h⟩
      · rw [joinWith_cons _ _ hrest] at h
        rcases List.mem_append.mp h with h | h
        · exact .inr ⟨line, List.mem_cons_self, h⟩
        · rcases List.mem_cons.mp h with h | h
          · exact .inl h
          · exact (ih h).imp_right fun ⟨other, hother, hc⟩ =>
              ⟨other, List.mem_cons_of_mem _ hother, hc⟩

/-- Blank lines make up a blank text. -/
theorem isBlank_of_mem_joinWith {lines : List (List Char)}
    (hlines : ∀ line ∈ lines, isEmptyLine line = true) {c : Char}
    (h : c ∈ joinWith ['\n'] lines) : isBlank c = true := by
  rcases mem_of_mem_joinWith h with rfl | ⟨line, hline, hc⟩
  · rfl
  · exact List.all_eq_true.mp (hlines line hline) c hc

/-- Only blanks are cut off when blank lines are. -/
theorem exists_joinWith_trimLines (lines : List (List Char)) :
    ∃ above below, (∀ c ∈ above ++ below, isBlank c = true) ∧
      joinWith ['\n'] lines = above ++ (joinWith ['\n'] (trimLines lines) ++ below) := by
  obtain ⟨above, below, htrimmed⟩ := exists_trimmed lines
  obtain ⟨habove, hbelow⟩ := List.forall_mem_append.mp htrimmed.blank
  obtain ⟨first, hfirst, hjoin⟩ := exists_joinWith_append ['\n'] above (trimLines lines ++ below)
  obtain ⟨last, hlast, hrest⟩ := exists_joinWith_append ['\n'] (trimLines lines) below
  have hglue : ∀ glue : List Char, glue = [] ∨ glue = ['\n'] → ∀ c ∈ glue, isBlank c = true := by
    rintro glue (rfl | rfl) <;> simp [isBlank]
  refine ⟨joinWith ['\n'] above ++ first, last ++ joinWith ['\n'] below, ?_, ?_⟩
  · exact List.forall_mem_append.mpr
      ⟨List.forall_mem_append.mpr
          ⟨fun c hc => isBlank_of_mem_joinWith habove hc, hglue first hfirst⟩,
        List.forall_mem_append.mpr
          ⟨hglue last hlast, fun c hc => isBlank_of_mem_joinWith hbelow hc⟩⟩
  · conv_lhs => rw [htrimmed.eq, hjoin, hrest]
    simp

/-- A text made of lines with ink at both ends neither begins nor ends with a line end. -/
theorem isLine_joinWith {lines : List (List Char)} (h : Inked lines)
    (hlines : ∀ line ∈ lines, IsLine line) : IsLine (joinWith ['\n'] lines) := by
  have hink : ∀ line : List Char, isEmptyLine line = false → line ≠ [] := by
    rintro line hline rfl
    cases hline
  rcases List.eq_nil_or_concat lines with rfl | ⟨front, last, rfl⟩
  · exact isLine_of_not_mem (by simp [joinWith])
  rw [List.concat_eq_append] at *
  constructor
  · obtain ⟨first, rest, hcons⟩ := List.exists_cons_of_ne_nil (l := front ++ [last]) (by simp)
    rw [hcons] at h hlines ⊢
    have hne := hink first (h.head first rfl)
    have hfirst := (hlines first List.mem_cons_self).1
    by_cases hrest : rest = []
    · rw [hrest, joinWith_singleton]
      exact hfirst
    · rw [joinWith_cons _ _ hrest, List.head?_append_of_ne_nil _ hne]
      exact hfirst
  · have hne := hink last (h.last last (List.getLast?_concat ..))
    have hlast := (hlines last (by simp)).2
    by_cases hfront : front = []
    · rw [hfront, List.nil_append, joinWith_singleton]
      exact hlast
    · rw [joinWith_append _ hfront (List.cons_ne_nil _ _), joinWith_singleton, ← List.append_assoc,
        List.getLast?_append_of_ne_nil _ hne]
      exact hlast

/-! ## Texts -/

/-- The shape of what is printed for tokens, but for the line end behind it: the parts of the
tokens in their order, some blanks being cut off at both ends.  It neither begins nor ends with a
line end, and where two empty lines follow one another, they stand inside of a part of one of the
kinds. -/
def Shaped (kinds : List PartKind) (ts : List Token) (body : List Char) : Prop :=
  body.head? ≠ some '\n' ∧ body.getLast? ≠ some '\n' ∧
    ∃ ps above below, ps.map Placed.part = partsOf ts ∧ Laid ps ∧
      laidText ps = above ++ (body ++ below) ∧ (∀ c ∈ above ++ below, isBlank c = true) ∧
      ∀ before after, body = before ++ (emptyLines ++ after) →
        ∃ front p back inner rest, ps = front ++ p :: back ∧ p.part.kind ∈ kinds ∧
          p.printed = inner ++ (emptyLines ++ rest) ∧
          above ++ before = laidText front ++ (p.gap ++ inner)

/-- **The shape of a printed text.**  A text that can be read is printed with one line end behind
it, and with a line that is not empty at its beginning unless it has no other.  Between two parts
there is a blank line at most, and two empty lines follow one another only inside of a tag, a
comment, a declaration, a processing instruction, a verbatim element or the body of a script. -/
theorem prettify_shape (width : Int) {text : List Char} {ts : List Token}
    (h : tokens text = .ok ts) :
    ∃ body, prettify width text = .ok (body ++ ['\n']) ∧
      Shaped [.tag, .remark, .instruction, .verbatim, .scriptBody] ts body := by
  obtain ⟨ps, hps, hparts⟩ := exists_typeset_layOut width h
  obtain ⟨above, below, hblank, hjoin⟩ := exists_joinWith_trimLines (layOut width ts)
  obtain ⟨front, back, htrimmed⟩ := exists_trimmed (layOut width ts)
  have hkept : ∀ line ∈ trimLines (layOut width ts), IsLine line := fun line hline =>
    hps.ends line (htrimmed.subset hline)
  obtain ⟨hfirst, hlast⟩ := isLine_joinWith htrimmed.inked hkept
  refine ⟨joinWith ['\n'] (trimLines (layOut width ts)), by rw [prettify, h]; rfl, hfirst, hlast,
    ps, above, below, hparts, hps.laid, hps.text ▸ hjoin, hblank, fun before after hbody => ?_⟩
  have htext : laidText ps = (above ++ before) ++ (emptyLines ++ (after ++ below)) := by
    rw [← hps.text, hjoin, hbody]
    simp
  obtain ⟨front, p, back, inner, rest, rfl, hprinted, hbefore⟩ :=
    hps.laid.exists_of_emptyLines htext
  refine ⟨front, p, back, inner, rest, rfl, ?_, hprinted, hbefore⟩
  have hmem : p.part ∈ partsOf ts := by
    rw [← hparts]
    simp
  exact TextPart.kind_of_newline (wellFormed_partsOf (tidy_tokens h) _ hmem)
    (hps.laid.placed p (by simp)).prints (by rw [hprinted]; simp [emptyLines])

/-- Blank lines at both ends, between words and between elements, in a comment and in a script. -/
def roomyText : List Char :=
  "\n\n<p>a\n\n\n\nb <!--x\n\n\ny-->\n\n\n<script>\n\nf()\n\n\ng()</script></p>\n\n".toList

theorem prettify_shape_roomyText :
    ∃ ts, tokens roomyText = .ok ts ∧ ∃ body, prettify 80 roomyText = .ok (body ++ ['\n']) ∧
      Shaped [.tag, .remark, .instruction, .verbatim, .scriptBody] ts body := by
  obtain ⟨ts, hts⟩ : ∃ ts, tokens roomyText = .ok ts := ⟨_, rfl⟩
  exact ⟨ts, hts, prettify_shape 80 hts⟩

/-- A processing instruction of several lines, two of them empty. -/
def roomyInstruction : List Char :=
  "<?a\n\n\nb>".toList

/-- Processing instructions cannot be left out: they are printed as they are. -/
theorem not_shaped_without_instruction :
    ¬ ∀ width text ts, tokens text = .ok ts → ∃ body,
      prettify width text = .ok (body ++ ['\n']) ∧
        Shaped [.tag, .remark, .verbatim, .scriptBody] ts body := by
  intro hall
  have htokens : tokens roomyInstruction = .ok [.instruction "a\n\n\nb".toList] := by
    decide +kernel
  have hprinted : prettify 80 roomyInstruction = .ok (roomyInstruction ++ ['\n']) := by
    decide +kernel
  obtain ⟨body, hbody, -, -, ps, above, below, hparts, -, -, -, hlines⟩ :=
    hall 80 roomyInstruction _ htokens
  have hsame : body = roomyInstruction :=
    (List.append_cancel_right (Except.ok.inj (hprinted.symm.trans hbody))).symm
  obtain ⟨front, p, back, inner, rest, rfl, hkind, -⟩ :=
    hlines "<?a".toList "b>".toList (by rw [hsame]; rfl)
  -- the only part is the instruction
  have hmem : p.part ∈ partsOf [.instruction "a\n\n\nb".toList] := by
    rw [← hparts]
    simp
  have hpart : p.part.kind = .instruction := by
    have honly : ∀ q ∈ partsOf [.instruction "a\n\n\nb".toList], q.kind = .instruction := by
      decide +kernel
    exact honly _ hmem
  rw [hpart] at hkind
  exact absurd hkind (by decide)

end Folio.Markup
