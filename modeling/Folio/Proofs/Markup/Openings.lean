import Folio.Proofs.Markup.ScriptBodies

/-!
# What is open between two tokens

After every token of a text the state of the formatter agrees with the tokens that it has
been given (`Consistent`).  What is open is what the tokens leave open, and the depth is the
number of open elements, whatever end tags have come.  At most one thing is held back: the
inline run, or a verbatim region, or a script.  An open region consists of the pieces of the
tokens from its start tag on, and its nesting counts the start tags of its element that are
still unmatched; an open script has the data that has come since its start tag, and nothing but
data has come.

That only one thing is held back, and that an open script is the element that the reader
takes for raw text, is the invariant `Fits`.  What is added here are the levels, which no token
brings into disorder (`levelled_step`), and where an open region or script comes from
(`origins_step`).  `consistent_of_tokens` puts them together for all beginnings of the tokens of
a text.
-/

namespace Folio.Markup

/-! ## Levels -/

namespace State

/-- The depth is the number of open elements. -/
def Levelled (s : State) : Prop :=
  s.depth = s.stack.length

namespace Levelled

variable {s : State}

theorem flush (h : s.Levelled) : s.flush.Levelled := by
  obtain ⟨lines, wanted, hflush, -⟩ := s.flush_spec
  rw [hflush]
  exact h

theorem emitLines (h : s.Levelled) (text : List Char) : (s.emitLines text).Levelled := by
  obtain ⟨lines, hemit, -⟩ := s.emitLines_spec text
  rw [hemit]
  exact h

theorem emitVerbatim (h : s.Levelled) (v : Verbatim) : (s.emitVerbatim v).Levelled :=
  Levelled.emitLines (s := { s with verbatim := none }) h v.pieces.flatten

theorem emitScript (h : s.Levelled) (script : Script) : (s.emitScript script).Levelled := by
  obtain ⟨lines, hemit, -⟩ := s.emitScript_spec script
  rw [hemit]
  exact h

theorem flow (h : s.Levelled) (text : List Char) : (s.flow text).Levelled := by
  obtain ⟨more, spaced, wanted, after, hflow, -⟩ := s.flow_spec text
  rw [hflow]
  exact h

/-- As many levels are left as elements that are closed. -/
theorem closeElement (h : s.Levelled) (name : String) : (s.closeElement name).Levelled := by
  unfold State.closeElement
  split
  · simp only [Levelled, List.length_drop]
    rw [h]
  · exact h

/-- The elements that are closed with an open one are no more than the depth, so that nothing
is cut off when they are taken from it. -/
theorem closed_le (h : s.Levelled) {name : String} (hname : name ∈ s.stack) :
    (s.stack.takeWhile (· != name)).length + 1 ≤ s.depth := by
  -- the elements inside of the open one are not all, since it is there itself
  have hsplit := List.takeWhile_append_dropWhile (p := (· != name)) (l := s.stack)
  have hrest : s.stack.dropWhile (· != name) ≠ [] := by
    rw [Ne, List.dropWhile_eq_nil_iff]
    intro hother
    simpa using hother name hname
  have hpos := List.length_pos_of_ne_nil hrest
  have hlength := congrArg List.length hsplit
  rw [List.length_append] at hlength
  rw [h]
  omega

theorem openTag (h : s.Levelled) (name : String) (source : List Char) :
    (s.openTag name source).Levelled := by
  have hblock : (s.flush.emit source).Levelled := h.flush
  unfold State.openTag
  split
  · exact h
  · split
    · exact h.flush
    · split
      · exact h.flush
      · split
        · exact h
        · dsimp only
          split
          · exact hblock
          · exact congrArg (· + 1) hblock

theorem closeTag (h : s.Levelled) (name : String) : (s.closeTag name).Levelled := by
  unfold State.closeTag
  split
  · split
    · split
      · exact h.emitVerbatim _
      · exact h
    · exact h
  · split
    · exact h.emitScript _
    · exact h
  · split
    · exact h
    · exact h.flush.closeElement name

theorem emptyTag (h : s.Levelled) (name : String) (source : List Char) :
    (s.emptyTag name source).Levelled := by
  unfold State.emptyTag
  split
  · exact h
  · split
    · exact h
    · exact h.flush

theorem text (h : s.Levelled) (content : List Char) : (s.text content).Levelled := by
  unfold State.text
  split
  · exact h
  · exact h
  · exact h.flow content

theorem reference (h : s.Levelled) (piece : List Char) : (s.reference piece).Levelled := by
  unfold State.reference
  split <;> exact h

theorem block (h : s.Levelled) (piece : List Char) : (s.block piece).Levelled := by
  unfold State.block
  split
  · exact h
  · exact h.flush.emitLines piece

end Levelled

/-- No token brings the levels into disorder, not even an end tag that matches nothing. -/
theorem levelled_step {s : State} (h : s.Levelled) (token : Token) : (s.step token).Levelled := by
  cases token with
  | startTag name source => exact h.openTag name source
  | emptyTag name source => exact h.emptyTag name source
  | endTag name => exact h.closeTag name
  | data content => exact h.text content
  | entity name | charCode digits => exact h.reference _
  | comment text | declaration text | markedSection text | instruction text => exact h.block _

theorem levelled_foldl_step {s : State} (h : s.Levelled) (ts : List Token) :
    (ts.foldl step s).Levelled := by
  induction ts generalizing s with
  | nil => exact h
  | cons token rest ih => exact ih (levelled_step h token)

end State

/-! ## Where open regions come from -/

/-- Whether a token is a start tag of an element. -/
def Token.starts (element : String) : Token → Bool
  | .startTag name _ => name == element
  | _ => false

/-- A verbatim region that has been open since a start tag of its element: it has the pieces of
this tag and of the tokens after it, and its nesting is the number of start tags of the element
among them that are unmatched. -/
structure Verbatim.MadeOf (v : Verbatim) (source : List Char) (inside : List Token) : Prop where
  element : verbatimElements.contains v.element
  pieces : v.pieces = source :: inside.map Token.piece
  unmatched : v.nesting + inside.count (.endTag v.element) =
    1 + inside.countP (Token.starts v.element)
  nested : 0 < v.nesting

/-- A script that has been open since its start tag: it has the data after this tag, where
nothing but data has come. -/
structure Script.MadeOf (script : Script) (inside : List Token) : Prop where
  element : scriptElements.contains script.element
  body : script.body = inside.map Token.piece
  data : ∀ token ∈ inside, ∃ content, token = .data content

/-- What is open in a state comes from the tokens so far. -/
structure Origins (ts : List Token) (s : State) : Prop where
  verbatim : ∀ v, s.verbatim = some v → ∃ before source inside,
    ts = before ++ .startTag v.element source :: inside ∧ v.MadeOf source inside
  script : ∀ script, s.script = some script → ∃ before inside,
    ts = before ++ .startTag script.element script.source :: inside ∧ script.MadeOf inside

theorem origins_of_isFlow {s : State} (h : s.IsFlow) (ts : List Token) : Origins ts s where
  verbatim := by simp [h.1]
  script := by simp [h.2]

/-- The nesting after a token, if the region is not closed. -/
theorem Region.nesting_after {element : String} {nesting next : Nat} {token : Token}
    (hpos : 0 < nesting)
    (h : (Region.verbatim element nesting).after token = .verbatim element next) :
    0 < next ∧ next + [token].count (.endTag element) =
      nesting + [token].countP (Token.starts element) := by
  cases token with
  | startTag name source =>
      rw [Region.after] at h
      by_cases hname : name = element
      · rw [if_pos hname] at h
        cases h
        simp [Token.starts, hname]
      · rw [if_neg hname] at h
        cases h
        simp [Token.starts, hname, hpos]
  | endTag name =>
      rw [Region.after] at h
      by_cases hname : name = element
      · rw [if_pos hname] at h
        split at h
        · cases h
        · cases h
          simp [Token.starts, hname]
          omega
      · rw [if_neg hname] at h
        cases h
        simp [Token.starts, hname, hpos]
  | _ =>
      cases h
      simp [Token.starts, hpos]

/-- A region with one token more, which does not close it. -/
theorem Verbatim.MadeOf.copy {v : Verbatim} {source : List Char} {inside : List Token}
    (h : v.MadeOf source inside) {token : Token} {nesting : Nat}
    (hregion : (Region.verbatim v.element v.nesting).after token = .verbatim v.element nesting) :
    Verbatim.MadeOf { v with nesting := nesting, pieces := v.pieces ++ [token.piece] } source
      (inside ++ [token]) := by
  obtain ⟨hnested, hcount⟩ := Region.nesting_after h.nested hregion
  have hunmatched := h.unmatched
  refine ⟨h.element, by simp [h.pieces], ?_, hnested⟩
  rw [List.count_append, List.countP_append]
  dsimp only
  omega

/-! ## Steps -/

section

variable {c c' : Context} {s : State} {ts : List Token} {token : Token}

/-- In a verbatim region, a token is added or closes it. -/
theorem origins_step_of_verbatim (hregion : (s.step token).region = s.region.after token)
    (hfits : Fits c s) (h : Origins ts s) {v : Verbatim} (hverbatim : s.verbatim = some v) :
    Origins (ts ++ [token]) (s.step token) := by
  have hscript := hfits.script_of_verbatim hverbatim
  cases hopen : (s.region.after token).isVerbatim with
  | true =>
      obtain ⟨nesting, hstep⟩ := State.exists_step_eq_copy hverbatim hopen
      obtain ⟨before, source, inside, rfl, hmade⟩ := h.verbatim v hverbatim
      rw [hstep] at hregion ⊢
      rw [State.region_verbatim hverbatim] at hregion
      refine ⟨?_, by simp [State.copy, hscript]⟩
      rintro w ⟨⟩
      exact ⟨before, source, inside ++ [token], by simp, hmade.copy hregion.symm⟩
  | false =>
      -- only the end tag that leaves nothing unmatched does this
      rw [State.region_verbatim hverbatim] at hopen hregion
      obtain ⟨rfl, hnesting⟩ := Region.eq_endTag_of_closed hopen
      have hclosed : (Region.verbatim v.element v.nesting).after (.endTag v.element) = .flow := by
        simp [Region.after, hnesting]
      exact origins_of_isFlow (State.isFlow_of_region (hregion.trans hclosed)) _

/-- In a script, there is nothing but data and its end tag. -/
theorem origins_step_of_script (hregion : (s.step token).region = s.region.after token)
    (hfits : Fits c s) (hnext : c.after? token = some c') (h : Origins ts s) {script : Script}
    (hscript : s.script = some script) : Origins (ts ++ [token]) (s.step token) := by
  obtain ⟨hverbatim, -⟩ := hfits.script_alone script hscript
  rw [hfits.script_context script hscript] at hnext
  cases token with
  | data content =>
      have hstep : s.step (.data content) = s.collect script content :=
        State.text_script hverbatim hscript content
      obtain ⟨before, inside, rfl, hmade⟩ := h.script script hscript
      rw [hstep]
      refine ⟨by simp [State.collect, hverbatim], ?_⟩
      rintro collected ⟨⟩
      refine ⟨before, inside ++ [.data content], by simp, hmade.element, ?_, ?_⟩
      · simp [hmade.body, Token.piece]
      · exact List.forall_mem_append.mpr ⟨hmade.data, by simp⟩
  | endTag name =>
      have hname : name = script.element := eq_of_after?_endTag hnext
      have hclosed : (Region.script script.element).after (.endTag name) = .flow := by
        rw [Region.after, if_pos hname]
      rw [State.region_script hverbatim hscript] at hregion
      exact origins_of_isFlow (State.isFlow_of_region (hregion.trans hclosed)) _
  | _ =>
      -- the reader gives no such token in raw text
      cases hnext

/-- Where nothing is open, a start tag of a verbatim or script element opens it. -/
theorem origins_step_of_flow (hregion : (s.step token).region = s.region.after token)
    (hs : s.IsFlow) : Origins (ts ++ [token]) (s.step token) := by
  rcases State.step_of_isFlow hs token with ⟨name, source, rfl, hname, hstep⟩ |
      ⟨name, source, rfl, hname, hstep⟩ | hflow
  · rw [hstep]
    refine ⟨?_, by simp [hs.flush.2]⟩
    rintro v ⟨⟩
    exact ⟨ts, source, [], rfl, hname, rfl, rfl, Nat.one_pos⟩
  · rw [hstep]
    refine ⟨by simp [hs.flush.1], ?_⟩
    rintro script ⟨⟩
    exact ⟨ts, [], rfl, hname, rfl, by simp⟩
  · rw [State.region_flow hs.1 hs.2] at hregion
    exact origins_of_isFlow (State.isFlow_of_region (hregion.trans hflow)) _

theorem origins_step (hfits : Fits c s) (hnext : c.after? token = some c') (h : Origins ts s) :
    Origins (ts ++ [token]) (s.step token) := by
  have hregion := (advances_step hfits hnext).region
  cases hverbatim : s.verbatim with
  | some v => exact origins_step_of_verbatim hregion hfits h hverbatim
  | none =>
      cases hscript : s.script with
      | some script => exact origins_step_of_script hregion hfits hnext h hscript
      | none => exact origins_step_of_flow hregion ⟨hverbatim, hscript⟩

/-! ## Runs -/

/-- Induction on the tokens to come; `ts` are those that have been laid out. -/
theorem origins_foldl_step (hfits : Fits c s) (h : Origins ts s) {more : List Token}
    (hmore : Follows c more c') : Origins (ts ++ more) (more.foldl State.step s) := by
  induction more generalizing c s ts with
  | nil => simpa using h
  | cons token rest ih =>
      obtain ⟨next, hnext, hrest⟩ := follows_cons.mp hmore
      have hlater := ih (advances_step hfits hnext).fits (origins_step hfits hnext h) hrest
      rw [List.append_assoc] at hlater
      exact hlater

end

/-- A state agrees with the tokens so far: what is open is what they leave open, and comes from
them; the depth is the number of open elements, and no end tag takes more from it than there is;
a region, a script and an inline run exclude one another. -/
structure Consistent (ts : List Token) (s : State) : Prop extends Origins ts s where
  region : s.region = ts.foldl Region.after .flow
  depth : s.depth = s.stack.length
  closed_le : ∀ name ∈ s.stack, (s.stack.takeWhile (· != name)).length + 1 ≤ s.depth
  apart : s.verbatim = none ∨ s.script = none
  atoms : s.verbatim ≠ none ∨ s.script ≠ none → s.atoms = []

namespace State

theorem isFlow_emitVerbatim {s : State} (hscript : s.script = none) (v : Verbatim) :
    (s.emitVerbatim v).IsFlow := by
  obtain ⟨lines, hemit, -⟩ := { s with verbatim := none }.emitLines_spec v.pieces.flatten
  rw [emitVerbatim, hemit]
  exact ⟨rfl, hscript⟩

theorem finish_settles_of_no_script {s : State} (hscript : s.script = none) :
    s.finish.IsFlow ∧ s.finish.atoms = [] := by
  have hflush : ∀ t : State, t.IsFlow → t.flush.IsFlow ∧ t.flush.atoms = [] := by
    intro t ht
    obtain ⟨lines, wanted, hflush, -⟩ := t.flush_spec
    exact ⟨ht.flush, by rw [hflush]⟩
  cases hverbatim : s.verbatim with
  | some v =>
      simp only [finish, hscript, hverbatim]
      exact hflush _ (isFlow_emitVerbatim hscript v)
  | none =>
      simp only [finish, hscript, hverbatim]
      exact hflush s ⟨hverbatim, hscript⟩

/-- The end of a text leaves nothing open and nothing to be wrapped. -/
theorem finish_settles (s : State) : s.finish.IsFlow ∧ s.finish.atoms = [] := by
  cases hscript : s.script with
  | none => exact finish_settles_of_no_script hscript
  | some script =>
      -- the script is written first, and what is left has none
      obtain ⟨lines, hemit, -⟩ := s.emitScript_spec script
      have hclosed : (s.emitScript script).script = none := by rw [hemit]
      have hfinish : s.finish = (s.emitScript script).finish := by
        simp only [finish, hscript, hclosed]
      rw [hfinish]
      exact finish_settles_of_no_script hclosed

end State

/-- **The formatter keeps in step with the reader.**  After every token of a text the state
agrees with the tokens so far, whatever tags are crossed, unmatched or nested, and whichever
element the reader takes for raw text.  The end of the text leaves nothing open and nothing to
be wrapped. -/
theorem consistent_of_tokens (width : Int) {text : List Char} {ts : List Token}
    (h : tokens text = .ok ts) :
    (∀ before, before <+: ts →
      Consistent before (before.foldl State.step (State.start width))) ∧
    (ts.foldl State.step (State.start width)).finish.IsFlow ∧
    (ts.foldl State.step (State.start width)).finish.atoms = [] := by
  refine ⟨?_, State.finish_settles _⟩
  rintro before ⟨after, rfl⟩
  obtain ⟨c, hfollows⟩ := follows_tokens h
  obtain ⟨c', hbefore, -⟩ := follows_append.mp hfollows
  have horigins : Origins [] (State.start width) := origins_of_isFlow (State.isFlow_start width) []
  have hlevelled : (State.start width).Levelled := rfl
  obtain ⟨hfits, hregion, -⟩ := foldl_step_spec (fits_start width) hbefore
  have hrun := origins_foldl_step (fits_start width) horigins hbefore
  have hlevels := State.levelled_foldl_step hlevelled before
  generalize before.foldl State.step (State.start width) = s at hfits hregion hrun hlevels
  refine ⟨hrun, hregion, hlevels, fun name hname => hlevels.closed_le hname, ?_, ?_⟩
  · cases hscript : s.script with
    | none => exact .inr rfl
    | some script => exact .inl (hfits.script_alone script hscript).1
  · rintro (hverbatim | hscript)
    · obtain ⟨v, hv⟩ := Option.ne_none_iff_exists'.mp hverbatim
      exact hfits.verbatim_alone v hv
    · obtain ⟨script, hsome⟩ := Option.ne_none_iff_exists'.mp hscript
      exact (hfits.script_alone script hsome).2

/-- A style sheet, an end tag that closes two elements and one that matches nothing, and a
verbatim region with a script in it, in whose body the end tag of the region is data. -/
def crossedTags : List Char :=
  "<style>p</style><ul><li>a</ul></p><pre>b<script>c</pre></script><pre>".toList

/-- After two tokens the style sheet has its data, after five there are two open elements; at the
end there is none, but two start tags of the region are unmatched. -/
theorem consistent_of_tokens_crossedTags :
    ∃ ts, tokens crossedTags = .ok ts ∧
      (∀ n, Consistent (ts.take n) ((ts.take n).foldl State.step (State.start 80))) ∧
      ((ts.take 2).foldl State.step (State.start 80)).script =
        some ⟨"style", "<style>".toList, ["p".toList]⟩ ∧
      ((ts.take 5).foldl State.step (State.start 80)).stack = ["li", "ul"] ∧
      (ts.foldl State.step (State.start 80)).stack = [] ∧
      (ts.foldl State.step (State.start 80)).verbatim = some ⟨"pre", 2, ["<pre>".toList,
        "b".toList, "<script>".toList, "c</pre>".toList, "</script>".toList, "<pre>".toList]⟩ ∧
      (ts.foldl State.step (State.start 80)).finish.IsFlow := by
  have hread : ∃ ts, tokens crossedTags = .ok ts ∧
      ((ts.take 2).foldl State.step (State.start 80)).script =
        some ⟨"style", "<style>".toList, ["p".toList]⟩ ∧
      ((ts.take 5).foldl State.step (State.start 80)).stack = ["li", "ul"] ∧
      (ts.foldl State.step (State.start 80)).stack = [] ∧
      (ts.foldl State.step (State.start 80)).verbatim = some ⟨"pre", 2, ["<pre>".toList,
        "b".toList, "<script>".toList, "c</pre>".toList, "</script>".toList, "<pre>".toList]⟩ :=
    ⟨_, rfl, by decide +kernel, by decide +kernel, by decide +kernel, by decide +kernel⟩
  obtain ⟨ts, htokens, hstates⟩ := hread
  obtain ⟨hall, hfinish, -⟩ := consistent_of_tokens 80 htokens
  obtain ⟨hstyle, hopened, hclosed, hregion⟩ := hstates
  exact ⟨ts, htokens, fun n => hall _ (List.take_prefix n ts), hstyle, hopened, hclosed, hregion,
    hfinish⟩

end Folio.Markup
