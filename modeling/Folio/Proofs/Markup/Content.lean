import Folio.Markup.Prettify
import Folio.Proofs.Markup.RawText
import Folio.Proofs.Markup.Writing

/-!
# The formatter keeps what it is given

The pieces of the tokens come out of the formatter in the order in which they
went in, with nothing but white space added or removed between and around them.

What a state has taken in is in two places: `lines`, which are written, and what
it still holds (`State.held`): the atoms of an inline run, the pieces of an open
verbatim region, or the start tag and body of an open script.  Only one of the
three is ever there, which is half of the invariant `Fits`; the other half is that
an open script and the reader's context name the same element, so that no token
but data and its end tag can come before the script is written.

`advances_step` is the step lemma: a token keeps the invariant and appends the ink
of its piece to the ink of the state.  `ink_prettify` is the statement for texts.
-/

namespace Folio.Markup

open Text

/-! ## Regions -/

/-- What is open between two tokens: nothing that is kept apart, a verbatim region
with the number of its unmatched start tags, or a script element. -/
inductive Region
  | flow
  | verbatim (element : String) (nesting : Nat)
  | script (element : String)
  deriving Repr, DecidableEq

/-- What is open after a token.  In a verbatim region only the tags of the element
that opened it count, so that a script in it is text like the rest. -/
def Region.after : Region → Token → Region
  | .flow, .startTag name _ =>
      if verbatimElements.contains name then .verbatim name 1
      else if scriptElements.contains name then .script name
      else .flow
  | .verbatim element nesting, .startTag name _ =>
      .verbatim element (if name = element then nesting + 1 else nesting)
  | .verbatim element nesting, .endTag name =>
      if name = element then
        if nesting ≤ 1 then .flow else .verbatim element (nesting - 1)
      else .verbatim element nesting
  | .script element, .endTag name => if name = element then .flow else .script element
  | region, _ => region

/-- The end tag of a script element that the tokens leave open. -/
def missingEnd (ts : List Token) : List Char :=
  match ts.foldl Region.after .flow with
  | .script element => closing element
  | _ => []

namespace State

/-- What is open in a state. -/
def region (s : State) : Region :=
  match s.verbatim, s.script with
  | some v, _ => .verbatim v.element v.nesting
  | none, some script => .script script.element
  | none, none => .flow

/-- What a state has taken in and not yet written. -/
def held (s : State) : List Char :=
  match s.verbatim, s.script with
  | some v, _ => v.pieces.flatten
  | none, some script => script.source ++ script.body.flatten
  | none, none => (s.atoms.map Atom.text).flatten

/-- All that a state has taken in, without white space. -/
def taken (s : State) : List Char :=
  ink s.lines.flatten ++ ink s.held

end State

/-- A state that can stand where the reader is in a context: an open script is the
reader's element, and at most one thing is held. -/
structure Fits (c : Context) (s : State) : Prop where
  script_context : ∀ script, s.script = some script → c = .rawText script.element
  script_alone : ∀ script, s.script = some script → s.verbatim = none ∧ s.atoms = []
  verbatim_alone : ∀ v, s.verbatim = some v → s.atoms = []

/-- The state `t` comes of `s` by a token after which the reader is in the
context `c`. -/
structure Advances (c : Context) (s : State) (token : Token) (t : State) : Prop where
  fits : Fits c t
  region : t.region = s.region.after token
  taken : t.taken = s.taken ++ ink token.piece

/-! ## What a state holds -/

namespace State

theorem region_flow {s : State} (hverbatim : s.verbatim = none) (hscript : s.script = none) :
    s.region = .flow := by
  simp [region, hverbatim, hscript]

theorem region_verbatim {s : State} {v : Verbatim} (hverbatim : s.verbatim = some v) :
    s.region = .verbatim v.element v.nesting := by
  simp [region, hverbatim]

theorem region_script {s : State} {script : Script} (hverbatim : s.verbatim = none)
    (hscript : s.script = some script) : s.region = .script script.element := by
  simp [region, hverbatim, hscript]

theorem taken_flow {s : State} (hverbatim : s.verbatim = none) (hscript : s.script = none) :
    s.taken = ink s.lines.flatten ++ ink (s.atoms.map Atom.text).flatten := by
  simp [State.taken, held, hverbatim, hscript]

theorem taken_verbatim {s : State} {v : Verbatim} (hverbatim : s.verbatim = some v) :
    s.taken = ink s.lines.flatten ++ ink v.pieces.flatten := by
  simp [State.taken, held, hverbatim]

theorem taken_script {s : State} {script : Script} (hverbatim : s.verbatim = none)
    (hscript : s.script = some script) :
    s.taken = ink s.lines.flatten ++ ink (script.source ++ script.body.flatten) := by
  simp [State.taken, held, hverbatim, hscript]

end State

theorem fits_start (width : Int) : Fits .markup (State.start width) where
  script_context := by simp [State.start]
  script_alone := by simp [State.start]
  verbatim_alone := by simp [State.start]

theorem Fits.script_of_verbatim {c : Context} {s : State} (h : Fits c s) {v : Verbatim}
    (hverbatim : s.verbatim = some v) : s.script = none := by
  cases hscript : s.script with
  | none => rfl
  | some script =>
      have hnone := (h.script_alone script hscript).1
      rw [hverbatim] at hnone
      cases hnone

theorem Fits.script_of_markup {s : State} (h : Fits .markup s) : s.script = none := by
  cases hscript : s.script with
  | none => rfl
  | some script => cases h.script_context script hscript

section

variable {c : Context} {s t : State} {token : Token}

/-- A token after which nothing is held but atoms. -/
theorem Advances.of_flow (hverbatim : t.verbatim = none) (hscript : t.script = none)
    (hregion : s.region.after token = .flow)
    (hink : ink t.lines.flatten ++ ink (t.atoms.map Atom.text).flatten =
      s.taken ++ ink token.piece) : Advances c s token t where
  fits := ⟨by simp [hscript], by simp [hscript], by simp [hverbatim]⟩
  region := by rw [State.region_flow hverbatim hscript, hregion]
  taken := by rw [State.taken_flow hverbatim hscript, hink]

/-- A token after which a verbatim region is open. -/
theorem Advances.of_verbatim {v : Verbatim} (hverbatim : t.verbatim = some v)
    (hscript : t.script = none) (hatoms : t.atoms = [])
    (hregion : s.region.after token = .verbatim v.element v.nesting)
    (hink : ink t.lines.flatten ++ ink v.pieces.flatten = s.taken ++ ink token.piece) :
    Advances c s token t where
  fits := ⟨by simp [hscript], by simp [hscript], fun _ _ => hatoms⟩
  region := by rw [State.region_verbatim hverbatim, hregion]
  taken := by rw [State.taken_verbatim hverbatim, hink]

/-- A token after which a script is open, as the reader has it. -/
theorem Advances.of_script {script : Script} (hverbatim : t.verbatim = none)
    (hscript : t.script = some script) (hatoms : t.atoms = [])
    (hcontext : c = .rawText script.element)
    (hregion : s.region.after token = .script script.element)
    (hink : ink t.lines.flatten ++ ink (script.source ++ script.body.flatten) =
      s.taken ++ ink token.piece) : Advances c s token t where
  fits :=
    ⟨fun opened hopened => by rw [hscript] at hopened; cases hopened; exact hcontext,
      fun _ _ => ⟨hverbatim, hatoms⟩, by simp [hverbatim]⟩
  region := by rw [State.region_script hverbatim hscript, hregion]
  taken := by rw [State.taken_script hverbatim hscript, hink]

end

/-! ## Tokens

One lemma for each way in which a token is laid out.  In a verbatim region all are
alike: the piece is kept, and only the nesting can change. -/

namespace State

theorem copy_advances {c c' : Context} {s : State} (h : Fits c s) {v : Verbatim}
    (hverbatim : s.verbatim = some v) (nesting : Nat) (token : Token)
    (hregion : (Region.verbatim v.element v.nesting).after token =
      .verbatim v.element nesting) :
    Advances c' s token (s.copy v nesting token.piece) := by
  refine .of_verbatim rfl (h.script_of_verbatim hverbatim) (h.verbatim_alone v hverbatim) ?_ ?_
  · rw [region_verbatim hverbatim, hregion]
  · rw [taken_verbatim hverbatim, ink_flatten_append, List.flatten_singleton, List.append_assoc]
    rfl

theorem collect_advances {c : Context} {s : State} (h : Fits c s) {script : Script}
    (hscript : s.script = some script) (token : Token)
    (hregion : (Region.script script.element).after token = .script script.element) :
    Advances c s token (s.collect script token.piece) := by
  obtain ⟨hverbatim, hatoms⟩ := h.script_alone script hscript
  refine .of_script hverbatim rfl hatoms (h.script_context script hscript) ?_ ?_
  · rw [region_script hverbatim hscript, hregion]
  · rw [taken_script hverbatim hscript]
    simp [collect]

theorem addAtom_advances {c : Context} {s : State} (hverbatim : s.verbatim = none)
    (hscript : s.script = none) {token : Token} (hregion : Region.flow.after token = .flow) :
    Advances c s token (s.addAtom token.piece) := by
  refine .of_flow hverbatim hscript ?_ ?_
  · rw [region_flow hverbatim hscript, hregion]
  · rw [taken_flow hverbatim hscript]
    simp [addAtom]

theorem flush_emit_advances {c : Context} {s : State} (hverbatim : s.verbatim = none)
    (hscript : s.script = none) {token : Token} (hregion : Region.flow.after token = .flow) :
    Advances c s token (s.flush.emit token.piece) := by
  obtain ⟨lines, hemit, hlines⟩ := s.flush_emit_spec token.piece
  rw [hemit]
  refine .of_flow hverbatim hscript ?_ ?_
  · rw [region_flow hverbatim hscript, hregion]
  · rw [taken_flow hverbatim hscript]
    simp [hlines]

/-- A start tag that begins a verbatim region. -/
theorem openVerbatim_advances {c : Context} {s : State} (hverbatim : s.verbatim = none)
    (hscript : s.script = none) {name : String} (source : List Char)
    (hname : verbatimElements.contains name) :
    Advances c s (.startTag name source)
      { s.flush with verbatim := some ⟨name, 1, [source]⟩ } := by
  obtain ⟨lines, wanted, hflush, hlines⟩ := s.flush_spec
  rw [hflush]
  refine .of_verbatim rfl hscript rfl ?_ ?_
  · rw [region_flow hverbatim hscript, Region.after, if_pos hname]
  · rw [taken_flow hverbatim hscript]
    simp [hlines, Token.piece]

/-- A start tag that begins a script; the reader takes what follows as raw text. -/
theorem openScript_advances {s : State} (hverbatim : s.verbatim = none) (hscript : s.script = none)
    {name : String} (source : List Char) (hname : verbatimElements.contains name = false)
    (hraw : scriptElements.contains name) :
    Advances (.rawText name) s (.startTag name source)
      { s.flush with script := some ⟨name, source, []⟩ } := by
  obtain ⟨lines, wanted, hflush, hlines⟩ := s.flush_spec
  rw [hflush]
  refine .of_script hverbatim rfl rfl rfl ?_ ?_
  · rw [region_flow hverbatim hscript, Region.after, if_neg (by simp only [hname]; decide),
      if_pos hraw]
  · rw [taken_flow hverbatim hscript]
    simp [hlines, Token.piece]

theorem openTag_advances {c' : Context} {s : State} (h : Fits .markup s) {name : String}
    {source : List Char} (hnext : Context.markup.after? (.startTag name source) = some c') :
    Advances c' s (.startTag name source) (s.openTag name source) := by
  have hscript : s.script = none := h.script_of_markup
  unfold openTag
  cases hverbatim : s.verbatim with
  | some v => exact copy_advances h hverbatim _ _ rfl
  | none =>
      dsimp only
      split
      · rename_i hname
        exact openVerbatim_advances hverbatim hscript source hname
      · rename_i hname
        split
        · rename_i hraw
          have hcontext : c' = .rawText name := by
            have hraw' : rawTextElements.contains name = true := hraw
            simp only [Context.after?, hraw', if_true, Option.some.injEq] at hnext
            exact hnext.symm
          rw [hcontext]
          exact openScript_advances hverbatim hscript source (by simpa using hname) hraw
        · rename_i hraw
          have hflow : Region.flow.after (.startTag name source) = .flow := by
            rw [Region.after, if_neg hname, if_neg hraw]
          split
          · exact addAtom_advances hverbatim hscript hflow
          · have hblock := flush_emit_advances (c := c') hverbatim hscript hflow
            split
            · exact hblock
            · exact ⟨⟨hblock.fits.script_context, hblock.fits.script_alone,
                hblock.fits.verbatim_alone⟩, hblock.region, hblock.taken⟩

theorem emptyTag_advances {s : State} (h : Fits .markup s) (name : String) (source : List Char) :
    Advances .markup s (.emptyTag name source) (s.emptyTag name source) := by
  unfold emptyTag
  cases hverbatim : s.verbatim with
  | some v => exact copy_advances h hverbatim v.nesting _ rfl
  | none =>
      dsimp only
      split
      · exact addAtom_advances hverbatim h.script_of_markup rfl
      · exact flush_emit_advances hverbatim h.script_of_markup rfl

/-- The end tag that closes a verbatim region is its last piece. -/
theorem emitVerbatim_advances {c c' : Context} {s : State} (h : Fits c s) {v : Verbatim}
    (hverbatim : s.verbatim = some v) (hnesting : v.nesting ≤ 1) :
    Advances c' s (.endTag v.element)
      (s.emitVerbatim { v with pieces := v.pieces ++ [closing v.element] }) := by
  obtain ⟨lines, hemit, hlines⟩ :=
    { s with verbatim := none }.emitLines_spec (v.pieces ++ [closing v.element]).flatten
  rw [emitVerbatim, hemit]
  refine .of_flow rfl (h.script_of_verbatim hverbatim) ?_ ?_
  · rw [region_verbatim hverbatim]
    simp [Region.after, hnesting]
  · rw [taken_verbatim hverbatim]
    simp [hlines, h.verbatim_alone v hverbatim, Token.piece]

theorem emitScript_advances {c c' : Context} {s : State} (h : Fits c s) {script : Script}
    (hscript : s.script = some script) :
    Advances c' s (.endTag script.element) (s.emitScript script) := by
  obtain ⟨hverbatim, hatoms⟩ := h.script_alone script hscript
  obtain ⟨lines, hemit, hlines⟩ := s.emitScript_spec script
  rw [hemit]
  refine .of_flow hverbatim rfl ?_ ?_
  · rw [region_script hverbatim hscript, Region.after, if_pos rfl]
  · rw [taken_script hverbatim hscript]
    simp [hlines, hatoms, Token.piece]

theorem closeBlock_advances {c : Context} {s : State} (hverbatim : s.verbatim = none)
    (hscript : s.script = none) (name : String) :
    Advances c s (.endTag name) ((s.flush.closeElement name).emit (closing name)) := by
  obtain ⟨first, wanted, hflush, hfirst⟩ := s.flush_spec
  obtain ⟨stack, depth, hclose⟩ := s.flush.closeElement_spec name
  obtain ⟨lines, hemit, hlines⟩ := (s.flush.closeElement name).emit_spec (closing name)
  rw [hclose, hflush] at hlines
  rw [hemit, hclose, hflush]
  refine .of_flow hverbatim hscript ?_ ?_
  · rw [region_flow hverbatim hscript]
    rfl
  · rw [taken_flow hverbatim hscript]
    simp [hlines, hfirst, Token.piece]

theorem closeTag_advances {c c' : Context} {s : State} (h : Fits c s) {name : String}
    (hnext : c.after? (.endTag name) = some c') :
    Advances c' s (.endTag name) (s.closeTag name) := by
  unfold closeTag
  cases hverbatim : s.verbatim with
  | some v =>
      dsimp only
      split
      · rename_i hname
        subst hname
        split
        · rename_i hnesting
          exact emitVerbatim_advances h hverbatim hnesting
        · rename_i hnesting
          exact copy_advances h hverbatim (v.nesting - 1) (.endTag v.element)
            (by simp [Region.after, hnesting])
      · rename_i hname
        exact copy_advances h hverbatim v.nesting (.endTag name)
          (by simp [Region.after, hname])
  | none =>
      cases hscript : s.script with
      | some script =>
          -- the reader gives no other end tag than that of the open script
          have hname : name = script.element := by
            rw [h.script_context script hscript] at hnext
            exact eq_of_after?_endTag hnext
          subst hname
          dsimp only
          rw [if_pos rfl]
          exact emitScript_advances h hscript
      | none =>
          dsimp only
          split
          · exact addAtom_advances hverbatim hscript rfl
          · exact closeBlock_advances hverbatim hscript name

/-! ### Text -/

theorem text_advances {c : Context} {s : State} (h : Fits c s) (content : List Char) :
    Advances c s (.data content) (s.text content) := by
  unfold text
  cases hverbatim : s.verbatim with
  | some v => exact copy_advances h hverbatim v.nesting (.data content) rfl
  | none =>
      cases hscript : s.script with
      | some script => exact collect_advances h hscript (.data content) rfl
      | none =>
          obtain ⟨more, spaced, wanted, after, hflow, hmore⟩ := s.flow_spec content
          have hwords : ink (wordsBy isLayoutBlank content).flatten = ink content :=
            ink_wordsBy isBlank_of_isLayoutBlank content
          dsimp only
          rw [hflow]
          refine .of_flow hverbatim hscript ?_ ?_
          · rw [region_flow hverbatim hscript]
            rfl
          · rw [taken_flow hverbatim hscript, List.map_append, hmore, ink_flatten_append, hwords,
              List.append_assoc]
            rfl

/-- References come in ordinary markup only. -/
theorem reference_advances {s : State} (h : Fits .markup s) {token : Token}
    (hregion : ∀ r : Region, r.after token = r) :
    Advances .markup s token (s.reference token.piece) := by
  unfold reference
  cases hverbatim : s.verbatim with
  | some v => exact copy_advances h hverbatim v.nesting _ (hregion _)
  | none =>
      rw [h.script_of_markup]
      exact addAtom_advances hverbatim h.script_of_markup (hregion _)

/-- Comments and declarations, too, come in ordinary markup only. -/
theorem block_advances {s : State} (h : Fits .markup s) {token : Token}
    (hregion : ∀ r : Region, r.after token = r) :
    Advances .markup s token (s.block token.piece) := by
  unfold block
  cases hverbatim : s.verbatim with
  | some v => exact copy_advances h hverbatim v.nesting _ (hregion _)
  | none =>
      have hscript := h.script_of_markup
      obtain ⟨first, wanted, hflush, hfirst⟩ := s.flush_spec
      obtain ⟨lines, hemit, hlines⟩ := s.flush.emitLines_spec token.piece
      rw [hflush] at hlines
      dsimp only
      rw [hemit, hflush]
      refine .of_flow hverbatim hscript ?_ ?_
      · rw [hregion, region_flow hverbatim hscript]
      · rw [taken_flow hverbatim hscript]
        simp [hlines, hfirst]

end State

/-! ## Runs -/

/-- A token that the reader can give is taken in. -/
theorem advances_step {c c' : Context} {s : State} (h : Fits c s) {token : Token}
    (hnext : c.after? token = some c') : Advances c' s token (s.step token) := by
  cases token with
  | data content =>
      rw [after?_data] at hnext
      cases hnext
      exact State.text_advances h content
  | endTag name => exact State.closeTag_advances h hnext
  | startTag name source =>
      cases c with
      | markup => exact State.openTag_advances h hnext
      | rawText element => cases hnext
  | emptyTag name source =>
      cases c with
      | markup => cases hnext; exact State.emptyTag_advances h name source
      | rawText element => cases hnext
  | entity name | charCode digits =>
      cases c with
      | markup => cases hnext; exact State.reference_advances h fun r => by cases r <;> rfl
      | rawText element => cases hnext
  | comment text | declaration text | markedSection text | instruction text =>
      cases c with
      | markup => cases hnext; exact State.block_advances h fun r => by cases r <;> rfl
      | rawText element => cases hnext

/-- Tokens that the reader can give one after another are all taken in, in order. -/
theorem foldl_step_spec {c c' : Context} {s : State} (h : Fits c s) {ts : List Token}
    (hts : Follows c ts c') :
    Fits c' (ts.foldl State.step s) ∧
      (ts.foldl State.step s).region = ts.foldl Region.after s.region ∧
      (ts.foldl State.step s).taken = s.taken ++ ink (ts.map Token.piece).flatten := by
  induction ts generalizing c s with
  | nil =>
      cases hts
      exact ⟨h, rfl, by simp⟩
  | cons token rest ih =>
      obtain ⟨next, hnext, hrest⟩ := follows_cons.mp hts
      have hstep := advances_step h hnext
      obtain ⟨hfits, hregion, hink⟩ := ih hstep.fits hrest
      refine ⟨hfits, ?_, ?_⟩
      · rw [List.foldl_cons, List.foldl_cons, hregion, hstep.region]
      · rw [List.foldl_cons, hink, hstep.taken]
        simp

/-- The end of a text writes what is held, and closes a script that is open. -/
theorem ink_finish {c : Context} {s : State} (h : Fits c s) :
    ink s.finish.lines.flatten = s.taken ++ ink (match s.region with
      | .script element => closing element
      | _ => []) := by
  unfold State.finish
  cases hverbatim : s.verbatim with
  | some v =>
      obtain ⟨lines, hemit, hlines⟩ := { s with verbatim := none }.emitLines_spec v.pieces.flatten
      obtain ⟨last, wanted, hflush, hlast⟩ := (s.emitVerbatim v).flush_spec
      rw [State.emitVerbatim, hemit] at hlast
      simp only [h.script_of_verbatim hverbatim, hverbatim, State.region_verbatim hverbatim]
      rw [hflush, hlast, hlines, State.taken_verbatim hverbatim, h.verbatim_alone v hverbatim]
      simp
  | none =>
      cases hscript : s.script with
      | some script =>
          obtain ⟨lines, hemit, hlines⟩ := s.emitScript_spec script
          obtain ⟨last, wanted, hflush, hlast⟩ := (s.emitScript script).flush_spec
          rw [hemit] at hlast
          have hopen : (s.emitScript script).verbatim = none := by rw [hemit]; exact hverbatim
          simp only [hopen, State.region_script hverbatim hscript]
          rw [hflush, hlast, hlines, State.taken_script hverbatim hscript,
            (h.script_alone script hscript).2]
          simp
      | none =>
          obtain ⟨lines, wanted, hflush, hlines⟩ := s.flush_spec
          simp only [hverbatim, State.region_flow hverbatim hscript]
          rw [hflush, hlines, State.taken_flow hverbatim hscript]
          simp

/-! ## Texts -/

theorem ink_takeWhile_isEmptyLine (ls : List (List Char)) :
    ∀ line ∈ ls.takeWhile isEmptyLine, ink line = [] := by
  intro line hline
  have hempty : isEmptyLine line := List.mem_takeWhile_imp (p := isEmptyLine) hline
  exact ink_eq_nil fun c hc => List.all_eq_true.mp hempty c hc

theorem ink_trimLines (ls : List (List Char)) : ink (trimLines ls).flatten = ink ls.flatten := by
  have hnone : ∀ ls : List (List Char), (∀ line ∈ ls, ink line = []) → ink ls.flatten = [] := by
    intro ls hls
    rw [ink, List.filter_flatten]
    exact List.flatten_eq_nil_iff.mpr fun piece hpiece => by
      obtain ⟨line, hline, rfl⟩ := List.mem_map.mp hpiece
      exact hls line hline
  have hfront : ∀ ls : List (List Char),
      ink (ls.dropWhile isEmptyLine).flatten = ink ls.flatten := by
    intro ls
    have hsplit := ink_flatten_append (ls.takeWhile isEmptyLine) (ls.dropWhile isEmptyLine)
    rw [List.takeWhile_append_dropWhile, hnone _ (ink_takeWhile_isEmptyLine ls),
      List.nil_append] at hsplit
    exact hsplit.symm
  have hback : ∀ ls : List (List Char),
      ink (ls.reverse.dropWhile isEmptyLine).reverse.flatten = ink ls.flatten := by
    intro ls
    have hsplit := ink_flatten_append (ls.reverse.dropWhile isEmptyLine).reverse
      (ls.reverse.takeWhile isEmptyLine).reverse
    rw [← List.reverse_append, List.takeWhile_append_dropWhile, List.reverse_reverse,
      hnone _ fun line hline =>
        ink_takeWhile_isEmptyLine ls.reverse line (List.mem_reverse.mp hline),
      List.append_nil] at hsplit
    exact hsplit.symm
  rw [trimLines, hfront, hback]

theorem ink_printLines (ls : List (List Char)) : ink (printLines ls) = ink ls.flatten := by
  rw [printLines, ink_append, ink_newline, List.append_nil, ink_joinWith ink_newline,
    ink_trimLines]

/-- **Pretty-printing changes white space only.**  A text that can be read is
printed, and what is printed is, white space apart, the pieces of its tokens in
their order and once each, with the end tag of a script that is left open; a text
that cannot be read is not printed, for the same reason. -/
theorem ink_prettify (width : Int) (text : List Char) :
    (prettify width text).map ink = (tokens text).map fun ts =>
      ink ((ts.map Token.piece).flatten ++ missingEnd ts) := by
  unfold prettify
  cases htokens : tokens text with
  | error e => rfl
  | ok ts =>
      obtain ⟨c, hfollows⟩ := follows_tokens htokens
      obtain ⟨hfits, hregion, hink⟩ := foldl_step_spec (fits_start width) hfollows
      have hlines : ink (printLines (layOut width ts)) =
          ink ((ts.map Token.piece).flatten ++ missingEnd ts) := by
        rw [ink_printLines, layOut, ink_finish hfits, hregion, hink, ink_append]
        rfl
      exact congrArg Except.ok hlines

end Folio.Markup
