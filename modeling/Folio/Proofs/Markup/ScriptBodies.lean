import Folio.Proofs.Markup.Printed
import Folio.Proofs.Markup.Regions

/-!
# Where the lines of a script body go

A script body is moved as a whole.  Its blank lines at both ends are dropped, the other blank
lines become empty, and in the remaining ones the margin of the body, which is the longest
white space that all of them begin with (`IsMargin`), is replaced by the indentation of the
body (`moved`).  What stands behind the margin is not touched but for white space at the end of
a line, so the lines keep their places relative to each other (`lead_moved`).

`lines_script` follows the element through the formatter, from its start tag to its end tag;
the reader gives nothing but data between them (`data_of_follows`).  `prettify_script` says of
a whole text how the element stands in the output, and that its printed body, printed again,
stays as it is.
-/

namespace Folio.Markup

open Text

/-! ## The margin of a body -/

/-- The longest white space that all lines begin with, blank ones apart. -/
structure IsMargin (margin : List Char) (ls : List (List Char)) : Prop where
  blank : ∀ c ∈ margin, isSpaceOrTab c = true
  isPrefix : ∀ line ∈ ls, isBlankLine line = false → margin <+: line
  longest : ∀ other : List Char, (∀ c ∈ other, isSpaceOrTab c = true) →
    (∀ line ∈ ls, isBlankLine line = false → other <+: line) → other <+: margin

theorem isPrefix_commonStart {m s t : List Char} (hs : m <+: s) (ht : m <+: t) :
    m <+: commonStart s t := by
  obtain ⟨s, rfl⟩ := hs
  obtain ⟨t, rfl⟩ := ht
  rw [commonStart_append]
  exact List.prefix_append _ _

theorem isPrefix_sharedStart {m : List Char} {ss : List (List Char)} (hne : ss ≠ [])
    (h : ∀ s ∈ ss, m <+: s) : m <+: sharedStart ss := by
  obtain ⟨first, others, rfl⟩ := List.exists_cons_of_ne_nil hne
  rw [sharedStart]
  clear hne
  induction others generalizing first with
  | nil => exact h first List.mem_cons_self
  | cons next rest ih =>
      obtain ⟨hfirst, hothers⟩ := List.forall_mem_cons.mp h
      obtain ⟨hnext, hrest⟩ := List.forall_mem_cons.mp hothers
      exact ih _ (List.forall_mem_cons.mpr ⟨isPrefix_commonStart hfirst hnext, hrest⟩)

/-- White space in front of a text is in front of its ink. -/
theorem isPrefix_takeWhile {p : Char → Bool} {m s : List Char} (hm : ∀ c ∈ m, p c = true)
    (h : m <+: s) : m <+: s.takeWhile p := by
  obtain ⟨rest, rfl⟩ := h
  rw [List.takeWhile_append_of_pos hm]
  exact List.prefix_append _ _

theorem isMargin_commonIndent {ls : List (List Char)}
    (hink : ∃ line ∈ ls, isBlankLine line = false) : IsMargin (commonIndent ls) ls where
  blank := by
    obtain ⟨line, hline, hblank⟩ := hink
    intro c hc
    exact List.mem_takeWhile_imp ((commonIndent_isPrefix_line hline hblank).subset hc)
  isPrefix := fun line hline hblank =>
    (commonIndent_isPrefix_line hline hblank).trans (List.takeWhile_prefix _)
  longest := by
    intro other hother hbegins
    rw [commonIndent_eq]
    apply isPrefix_sharedStart
    · obtain ⟨line, hline, hblank⟩ := hink
      exact List.ne_nil_of_mem
        (List.mem_map_of_mem (List.mem_filter.mpr ⟨hline, by simp [hblank]⟩))
    · intro start hstart
      obtain ⟨line, hline, rfl⟩ := List.mem_map.mp hstart
      obtain ⟨hmem, hblank⟩ := List.mem_filter.mp hline
      exact isPrefix_takeWhile hother (hbegins line hmem (by simpa using hblank))

/-! ## Lines that are moved -/

/-- A line without the margin; nothing if it is blank. -/
def bare (margin line : List Char) : List Char :=
  if isBlankLine line then [] else line.drop margin.length

/-- A line of a body as it is printed: the margin becomes the indentation of the body. -/
def moved (depth : Nat) (margin line : List Char) : List Char :=
  if isBlankLine line then [] else indent (depth + 1) ++ printed (line.drop margin.length)

theorem dedent_eq (ls : List (List Char)) : dedent ls = ls.map (bare (commonIndent ls)) := rfl

section

variable {ls : List (List Char)} {margin line : List Char} (h : IsMargin margin ls)
  (hline : line ∈ ls) (hblank : isBlankLine line = false)

include h hline hblank

/-- What stands behind the margin of a line has ink. -/
theorem IsMargin.exists_rest : ∃ rest, line = margin ++ rest ∧ isBlankLine rest = false := by
  obtain ⟨rest, rfl⟩ := h.isPrefix line hline hblank
  rw [isBlankLine_append h.blank] at hblank
  exact ⟨rest, rfl, hblank⟩

theorem IsMargin.isBlankLine_bare : isBlankLine (bare margin line) = false := by
  obtain ⟨rest, rfl, hrest⟩ := h.exists_rest hline hblank
  rw [bare, if_neg (by simp [hblank]), List.drop_left, hrest]

/-- White space behind the margin stays. -/
theorem IsMargin.lead_moved (htame : IsTame line) (depth : Nat) :
    ∃ extra, line.takeWhile isSpaceOrTab = margin ++ extra ∧
      (moved depth margin line).takeWhile isSpaceOrTab = indent (depth + 1) ++ extra := by
  obtain ⟨rest, rfl, hrest⟩ := h.exists_rest hline hblank
  have htameRest : IsTame rest := fun c hc => htame c (List.mem_append_right _ hc)
  refine ⟨rest.takeWhile isSpaceOrTab, List.takeWhile_append_of_pos h.blank, ?_⟩
  rw [moved, if_neg (by simp [hblank]), List.drop_left,
    List.takeWhile_append_of_pos (indent_blank _), takeWhile_printed htameRest hrest]

end

/-- Taking the margin off and indenting a line moves it. -/
theorem IsMargin.place_bare {ls : List (List Char)} {margin line : List Char}
    (h : IsMargin margin ls) (hline : line ∈ ls) (htame : IsTame line) (depth : Nat) :
    place depth (bare margin line) = moved depth margin line := by
  cases hblank : isBlankLine line with
  | true =>
      rw [bare, moved, if_pos hblank, if_pos hblank]
      rfl
  | false =>
      have hink := h.isBlankLine_bare hline hblank
      have hbare : bare margin line = line.drop margin.length := by
        rw [bare, if_neg (by simp [hblank])]
      rw [hbare] at hink ⊢
      rw [place_of_ink (fun c hc => htame c (List.mem_of_mem_drop hc)) hink, moved,
        if_neg (by simp [hblank])]

/-! ## The lines of a body -/

/-- In a tame line there are no blanks but spaces and tabs. -/
theorem IsTame.isEmptyLine_eq {line : List Char} (h : IsTame line) :
    isEmptyLine line = isBlankLine line := by
  rw [isEmptyLine, isBlankLine, Bool.eq_iff_iff, List.all_eq_true, List.all_eq_true]
  constructor
  · intro hall c hc
    rw [← h c hc]
    exact hall c hc
  · intro hall c hc
    rw [h c hc]
    exact hall c hc

section

variable {ls above kept below : List (List Char)} (h : Trimmed ls above kept below)
  (htame : ∀ line ∈ ls, IsTame line) (hink : ∃ line ∈ ls, isBlankLine line = false)

include h

theorem Trimmed.subset : kept ⊆ ls := by
  rw [h.eq]
  simp

include htame

/-- The lines around those that are kept are blank. -/
theorem Trimmed.isBlankLine_of_mem {line : List Char} (hline : line ∈ above ++ below) :
    isBlankLine line = true := by
  have hmem : line ∈ ls := by
    rw [h.eq]
    rcases List.mem_append.mp hline with hline | hline <;> simp [hline]
  rw [← (htame line hmem).isEmptyLine_eq, h.blank line hline]

include hink

theorem Trimmed.ne_nil : kept ≠ [] := by
  rintro rfl
  obtain ⟨line, hline, hblank⟩ := hink
  rw [h.eq, List.nil_append] at hline
  rw [h.isBlankLine_of_mem htame hline] at hblank
  cases hblank

/-- Without the margin, the lines that are kept stand between empty ones. -/
theorem Trimmed.inner_dedent :
    Inner (dedent ls) (above.map (bare (commonIndent ls))) (kept.map (bare (commonIndent ls)))
      (below.map (bare (commonIndent ls))) := by
  have hempty : ∀ part, part ⊆ above ++ below →
      ∀ line ∈ part.map (bare (commonIndent ls)), line = [] := by
    intro part hpart line hline
    obtain ⟨old, hold, rfl⟩ := List.mem_map.mp hline
    rw [bare, if_pos (h.isBlankLine_of_mem htame (hpart hold))]
  have hbare : ∀ line ∈ kept, isEmptyLine line = false → bare (commonIndent ls) line ≠ [] := by
    intro line hline hinked hnil
    rw [(htame line (h.subset hline)).isEmptyLine_eq] at hinked
    have hblank := (isMargin_commonIndent hink).isBlankLine_bare (h.subset hline) hinked
    rw [hnil] at hblank
    cases hblank
  have hne := h.ne_nil htame hink
  refine ⟨?_, hempty above (List.subset_append_left _ _), hempty below (List.subset_append_right _ _),
    ?_, ?_⟩
  · rw [dedent_eq, ← List.map_append, ← List.map_append, ← h.eq]
  · obtain ⟨first, rest, rfl⟩ := List.exists_cons_of_ne_nil hne
    exact ⟨_, _, rfl, hbare first List.mem_cons_self (h.inked.head first rfl)⟩
  · obtain ⟨rest, last, rfl⟩ := (List.eq_nil_or_concat kept).resolve_left hne
    rw [List.concat_eq_append] at hbare h ⊢
    exact ⟨rest.map _, _, List.map_append, hbare last (by simp) (h.inked.last last (by simp))⟩

end

/-- A body is printed as its lines from the first to the last that is not blank, each of them
moved. -/
theorem scriptLines_eq_map_moved {body : List Char} {above kept below : List (List Char)}
    (h : Trimmed (splitAt '\n' body) above kept below)
    (hblanks : ∀ c ∈ body, isBlank c = true → c = ' ' ∨ c = '\t' ∨ c = '\n')
    (hink : ∃ line ∈ splitAt '\n' body, isBlankLine line = false) (depth : Nat) :
    State.scriptLines depth body = kept.map (moved depth (commonIndent (splitAt '\n' body))) := by
  have htame : ∀ line ∈ splitAt '\n' body, IsTame line := fun line hline =>
    isTame_of_mem_splitAt hblanks hline
  have hclean : ∀ line ∈ kept.map (bare (commonIndent (splitAt '\n' body))), '\n' ∉ line := by
    intro line hline hmark
    obtain ⟨old, hold, rfl⟩ := List.mem_map.mp hline
    rw [bare] at hmark
    split at hmark
    · cases hmark
    · exact not_mem_of_mem_splitAt (h.subset hold) (List.mem_of_mem_drop hmark)
  rw [scriptLines_eq, splitAt_trim (h.inner_dedent htame hink) hclean, List.map_map]
  apply List.map_congr_left
  intro line hline
  exact (isMargin_commonIndent hink).place_bare (h.subset hline) (htame line (h.subset hline)) depth

/-! ## The element in a text -/

/-- What tokens stand for, put together. -/
def bodyOf (inner : List Token) : List Char :=
  (inner.map Token.piece).flatten

/-- The lines of a script element, given those of its body. -/
def scriptBlock (depth : Nat) (name : String) (source : List Char) (body : List (List Char)) :
    List (List Char) :=
  (indent depth ++ source) :: (body ++ [indent depth ++ closing name])

/-- Up to the end tag of its element, a script body is read as data. -/
theorem data_of_follows {element : String} {inner after : List Token} {c : Context}
    (h : Follows (.rawText element) (inner ++ after) c) (hinner : .endTag element ∉ inner) :
    ∀ token ∈ inner, ∃ content, token = .data content := by
  induction inner with
  | nil => simp
  | cons token rest ih =>
      obtain ⟨next, hnext, hrest⟩ := follows_cons.mp h
      rw [List.mem_cons, not_or] at hinner
      cases token with
      | data content =>
          obtain rfl := Option.some.inj hnext
          exact List.forall_mem_cons.mpr ⟨⟨content, rfl⟩, ih hrest hinner.2⟩
      | endTag name =>
          rw [Context.after?, if_neg fun heq => hinner.1 (by rw [heq])] at hnext
          cases hnext
      | _ => cases hnext

/-- Data is added to the body of an open script. -/
theorem State.foldl_collect {inner : List Token}
    (hinner : ∀ token ∈ inner, ∃ content, token = .data content) {s : State}
    (hverbatim : s.verbatim = none) (script : Script) :
    inner.foldl State.step { s with script := some script } =
      { s with script := some { script with body := script.body ++ inner.map Token.piece } } := by
  induction inner generalizing script with
  | nil => simp
  | cons token rest ih =>
      obtain ⟨⟨content, rfl⟩, hrest⟩ := List.forall_mem_cons.mp hinner
      have hstep : ({ s with script := some script } : State).step (.data content) =
          { s with script := some { script with body := script.body ++ [content] } } := by
        simp only [step, text, hverbatim, collect]
      rw [List.foldl_cons, hstep, ih hrest]
      simp [Token.piece]

/-- A script element with ink in its body, from its start tag to its end tag: its lines follow
those of the inline run before it. -/
theorem State.lines_script {s : State} (hs : s.IsFlow) {name : String}
    (hname : scriptElements.contains name = true) (source : List Char) {inner : List Token}
    (hinner : ∀ token ∈ inner, ∃ content, token = .data content)
    (hbody : (trimBy isLayoutBlank (bodyOf inner)).isEmpty = false) :
    ((.startTag name source :: (inner ++ [.endTag name])).foldl State.step s).lines =
      s.flush.lines ++ (s.flush.gapLine ++
        scriptBlock s.depth name source (State.scriptLines s.depth (bodyOf inner))) := by
  have hverbatim : verbatimElements.contains name = false := by
    have hmem : name ∈ scriptElements := by simpa using hname
    simp only [scriptElements, List.mem_cons, List.not_mem_nil, or_false] at hmem
    rcases hmem with rfl | rfl <;> decide
  have hdepth : s.flush.depth = s.depth := by
    obtain ⟨lines, wanted, hflush, -⟩ := s.flush_spec
    rw [hflush]
  have hopen : s.step (.startTag name source) =
      { s.flush with script := some ⟨name, source, []⟩ } := by
    simp only [step, openTag, hs.1, hverbatim, hname, Bool.false_eq_true, if_false, if_true]
  let collected : Script := ⟨name, source, inner.map Token.piece⟩
  have hfold : inner.foldl State.step { s.flush with script := some ⟨name, source, []⟩ } =
      { s.flush with script := some collected } :=
    foldl_collect hinner hs.flush.1 ⟨name, source, []⟩
  have hclose : ({ s.flush with script := some collected } : State).step (.endTag name) =
      ({ s.flush with script := some collected } : State).emitScript collected := by
    simp only [step, closeTag, hs.flush.1, collected, if_true]
  have hne : (trimBy isLayoutBlank collected.body.flatten).isEmpty = false := hbody
  rw [List.foldl_cons, List.foldl_append, hopen, hfold, List.foldl_cons, List.foldl_nil, hclose,
    emitScript_eq, if_neg (by simp [hne]), writeLines, emit_eq, ← hdepth]
  simp [collected, gapLine, scriptBlock, bodyOf]

/-- Outside of regions, nothing is open. -/
theorem State.isFlow_of_region {s : State} (h : s.region = .flow) : s.IsFlow := by
  unfold region at h
  split at h
  · cases h
  · cases h
  · rename_i hverbatim hscript
    exact ⟨hverbatim, hscript⟩

/-- Trimming does not cut into lines that begin and end with ink. -/
theorem exists_trimLines_append {block : List (List Char)} (hne : block ≠ []) (h : Inked block)
    (front back : List (List Char)) :
    ∃ front' back', trimLines (front ++ (block ++ back)) = front' ++ (block ++ back') := by
  refine ⟨front.dropWhile isEmptyLine, (back.reverse.dropWhile isEmptyLine).reverse, ?_⟩
  have hlast : ∀ line ∈ (front ++ block).getLast?, isEmptyLine line = false := by
    rw [List.getLast?_append_of_ne_nil _ hne]
    exact h.last
  have hhead : ∀ back' : List (List Char), ∀ line ∈ (block ++ back').head?,
      isEmptyLine line = false := by
    intro back'
    rw [List.head?_append_of_ne_nil _ hne]
    exact h.head
  rw [trimLines, ← List.append_assoc, reverse_dropWhile_append_of_getLast? hlast, List.append_assoc,
    dropWhile_append_of_head? _ (hhead _)]

/-- Lines that some tokens of a text add stand in the output, if they begin and end with ink. -/
theorem exists_prettify_block (width : Int) {text : List Char} {before mid after : List Token}
    {above block : List (List Char)} (h : tokens text = .ok (before ++ (mid ++ after)))
    (hlines : (mid.foldl State.step (before.foldl State.step (State.start width))).lines =
      above ++ block) (hne : block ≠ []) (hinked : Inked block) :
    ∃ front back, prettify width text =
      .ok (joinWith ['\n'] (front ++ (block ++ back)) ++ ['\n']) := by
  obtain ⟨later, hlater⟩ := (State.lines_isPrefix_foldl_step after
    (mid.foldl State.step (before.foldl State.step (State.start width)))).trans
      (State.lines_isPrefix_finish _)
  have hrun : layOut width (before ++ (mid ++ after)) = above ++ (block ++ later) := by
    rw [layOut, List.foldl_append, List.foldl_append, ← hlater, hlines, List.append_assoc]
  obtain ⟨front, back, htrim⟩ := exists_trimLines_append hne hinked above later
  refine ⟨front, back, ?_⟩
  rw [← htrim, ← hrun, prettify, h]
  rfl

theorem inked_scriptBlock (depth : Nat) (name : String) (tail : List Char)
    (body : List (List Char)) : Inked (scriptBlock depth name ('<' :: tail) body) := by
  constructor
  · rintro line ⟨⟩
    exact not_blank_of_mem (c := '<') (by simp) (by decide)
  · intro line hline
    rw [scriptBlock, ← List.cons_append, List.getLast?_concat] at hline
    obtain rfl := Option.some.inj hline
    exact not_blank_of_mem (c := '<') (by simp [closing]) (by decide)

/-- Where a script element begins outside of all regions, the reader takes its body as data and
the formatter has nothing open. -/
theorem data_of_tokens (width : Int) {text source : List Char} {name : String}
    {before inner after : List Token}
    (h : tokens text =
      .ok (before ++ .startTag name source :: (inner ++ .endTag name :: after)))
    (hbefore : before.foldl Region.after .flow = .flow)
    (hname : scriptElements.contains name = true) (hinner : .endTag name ∉ inner) :
    (before.foldl State.step (State.start width)).IsFlow ∧
      ∀ token ∈ inner, ∃ content, token = .data content := by
  obtain ⟨c, hfollows⟩ := follows_tokens h
  obtain ⟨c₁, hfirst, hrest⟩ := follows_append.mp hfollows
  obtain ⟨c₂, hopen, hbody⟩ := follows_cons.mp hrest
  constructor
  · obtain ⟨-, hregion, -⟩ := foldl_step_spec (fits_start width) hfirst
    exact State.isFlow_of_region (hregion.trans hbefore)
  · have hraw : rawTextElements.contains name = true := hname
    cases c₁ with
    | markup =>
        rw [Context.after?, if_pos hraw] at hopen
        obtain rfl := Option.some.inj hopen
        exact data_of_follows hbody hinner
    | rawText element => cases hopen

/-- A body with a line that is not blank has ink. -/
theorem ink_ne_nil {body : List Char}
    (hblanks : ∀ c ∈ body, isBlank c = true → c = ' ' ∨ c = '\t' ∨ c = '\n')
    (hink : ∃ line ∈ splitAt '\n' body, isBlankLine line = false) : ink body ≠ [] := by
  obtain ⟨line, hline, hblank⟩ := hink
  obtain ⟨front, c, back, rfl, -, hc⟩ := exists_ink (isTame_of_mem_splitAt hblanks hline) hblank
  have hmem : c ∈ body := (infix_of_mem_splitAt hline).subset (by simp)
  exact List.ne_nil_of_mem (List.mem_filter.mpr ⟨hmem, by simp [hc]⟩)

/-- **A script body keeps its relative layout.**  In a text that has a script element outside of
all regions, the element is printed as its start tag, the lines of its body and its end tag.  The
lines are those of the source from the first to the last that is not blank, each of them moved:
blank ones are empty, and in the others the margin of the body is replaced by the indentation
one level below the element, with the white space behind it kept.  The body that is printed has
the same lines when it is printed at the same depth. -/
theorem prettify_script (width : Int) {text source : List Char} {name : String}
    {before inner after : List Token}
    (h : tokens text =
      .ok (before ++ .startTag name source :: (inner ++ .endTag name :: after)))
    (hbefore : before.foldl Region.after .flow = .flow)
    (hname : scriptElements.contains name = true) (hinner : .endTag name ∉ inner)
    (hblanks : ∀ c ∈ bodyOf inner, isBlank c = true → c = ' ' ∨ c = '\t' ∨ c = '\n')
    (hink : ∃ line ∈ splitAt '\n' (bodyOf inner), isBlankLine line = false) :
    ∃ depth above kept below margin front back,
      depth = (before.foldl State.step (State.start width)).depth ∧
      Trimmed (splitAt '\n' (bodyOf inner)) above kept below ∧
      IsMargin margin (splitAt '\n' (bodyOf inner)) ∧
      prettify width text = .ok (joinWith ['\n']
        (front ++ (scriptBlock depth name source (kept.map (moved depth margin)) ++ back)) ++
          ['\n']) ∧
      (∀ line ∈ kept, isBlankLine line = false →
        ∃ extra, line.takeWhile isSpaceOrTab = margin ++ extra ∧
          (moved depth margin line).takeWhile isSpaceOrTab = indent (depth + 1) ++ extra) ∧
      State.scriptLines depth ('\n' ::
        (joinWith ['\n'] (kept.map (moved depth margin)) ++ '\n' :: indent depth)) =
          kept.map (moved depth margin) := by
  obtain ⟨hflow, hdata⟩ := data_of_tokens width h hbefore hname hinner
  obtain ⟨tail, rfl⟩ : ∃ tail, source = '<' :: tail :=
    bracketed_tokens h (.startTag name source) (by simp)
  have hsomeInk := ink_ne_nil hblanks hink
  have hsome : (trimBy isLayoutBlank (bodyOf inner)).isEmpty = false := by
    rw [Bool.eq_false_iff]
    intro hempty
    rw [← ink_trimBy isBlank_of_isLayoutBlank, List.isEmpty_iff.mp hempty] at hsomeInk
    exact hsomeInk rfl
  have hblock := State.lines_script hflow hname ('<' :: tail) hdata hsome
  generalize hdepth : (before.foldl State.step (State.start width)).depth = depth at hblock
  obtain ⟨above, below, hkept⟩ := exists_trimmed (splitAt '\n' (bodyOf inner))
  have hlines := scriptLines_eq_map_moved hkept hblanks hink depth
  have hmargin := isMargin_commonIndent hink
  have hagain := scriptLines_reindented hblanks hsomeInk depth
  rw [reindented, hlines] at hagain
  rw [hlines, ← List.append_assoc] at hblock
  have hsplit : before ++ .startTag name ('<' :: tail) :: (inner ++ .endTag name :: after) =
      before ++ ((.startTag name ('<' :: tail) :: (inner ++ [.endTag name])) ++ after) := by simp
  obtain ⟨front, back, hprettify⟩ := exists_prettify_block width (hsplit ▸ h) hblock
    (List.cons_ne_nil _ _) (inked_scriptBlock depth name tail _)
  refine ⟨depth, above, _, below, _, front, back, rfl, hkept, hmargin, hprettify, ?_, hagain⟩
  intro line hline hblank
  have hmem := hkept.subset hline
  exact hmargin.lead_moved hmem hblank (isTame_of_mem_splitAt hblanks hmem) depth

/-- A script in a list, its lines indented by tabs, with white space at their ends and a blank
line. -/
def listedScript : List Char :=
  "<ul><script>\n\n\tif (x)\n \t\n\t\ty() \n </script></ul>".toList

theorem prettify_script_listedScript :
    ∃ before inner after : List Token,
      tokens listedScript = .ok (before ++ .startTag "script" "<script>".toList ::
        (inner ++ .endTag "script" :: after)) ∧
      ∃ depth above kept below margin front back,
        depth = (before.foldl State.step (State.start 80)).depth ∧
        Trimmed (splitAt '\n' (bodyOf inner)) above kept below ∧
        IsMargin margin (splitAt '\n' (bodyOf inner)) ∧
        prettify 80 listedScript = .ok (joinWith ['\n'] (front ++
          (scriptBlock depth "script" "<script>".toList (kept.map (moved depth margin)) ++ back)) ++
            ['\n']) ∧
        (∀ line ∈ kept, isBlankLine line = false →
          ∃ extra, line.takeWhile isSpaceOrTab = margin ++ extra ∧
            (moved depth margin line).takeWhile isSpaceOrTab = indent (depth + 1) ++ extra) ∧
        State.scriptLines depth ('\n' ::
          (joinWith ['\n'] (kept.map (moved depth margin)) ++ '\n' :: indent depth)) =
            kept.map (moved depth margin) := by
  have hread : tokens listedScript = .ok ([.startTag "ul" "<ul>".toList] ++
      .startTag "script" "<script>".toList ::
        ([.data "\n\n\tif (x)\n \t\n\t\ty() \n ".toList] ++ .endTag "script" ::
          [.endTag "ul"])) := by
    decide +kernel
  refine ⟨_, _, _, hread, ?_⟩
  exact prettify_script 80 hread (by decide) (by decide) (by decide)
    (by simp [bodyOf, Token.piece, isBlank]) (by decide +kernel)

/-- The second line keeps the tab that it has more than the first. -/
example : prettify 80 listedScript =
    .ok "<ul>\n  <script>\n    if (x)\n\n    \ty()\n  </script>\n</ul>\n".toList := by
  decide +kernel

end Folio.Markup
