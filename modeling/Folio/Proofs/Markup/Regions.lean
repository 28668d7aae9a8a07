import Folio.Proofs.Markup.Content
import Folio.Proofs.Markup.Document
import Folio.Proofs.Markup.TagText

/-!
# Verbatim regions

From the start tag of a `pre` or `textarea` element to the end tag that closes it, nothing
is laid out: the pieces of the tokens are copied as they are, whatever they are.
`verbatimTexts` gives the texts of these regions, and `prettify_verbatim` says that they
stand in the printed text in their order.

A region is written when its end tag is met, as lines of which only the first is indented
(`verbatimLines`).  Lines that are written stay (`lines_isPrefix_step`), so that all regions
are found among the lines in order (`written_foldl_step`).  Trimming cuts none of them,
since a region begins with an angle bracket and ends with one, and joining the lines gives
the text of a region back.
-/

namespace Folio.Markup

open Text

/-! ## The regions of a list of tokens -/

/-- Whether a region is copied as it is. -/
def Region.isVerbatim : Region → Bool
  | .verbatim _ _ => true
  | _ => false

/-- The texts of the verbatim regions that tokens close, from a region on of which `held`
has been seen. -/
def verbatimTexts : Region → List Char → List Token → List (List Char)
  | _, _, [] => []
  | region, held, token :: rest =>
      let next := region.after token
      if next.isVerbatim then verbatimTexts next (held ++ token.piece) rest
      else if region.isVerbatim then (held ++ token.piece) :: verbatimTexts next [] rest
      else verbatimTexts next [] rest

/-- After tokens that leave nothing open, regions are found as if nothing stood before. -/
theorem verbatimTexts_append {region : Region} {held : List Char} {ts : List Token}
    (hheld : region.isVerbatim = false → held = [])
    (hts : (ts.foldl Region.after region).isVerbatim = false) (us : List Token) :
    verbatimTexts region held (ts ++ us) =
      verbatimTexts region held ts ++ verbatimTexts (ts.foldl Region.after region) [] us := by
  induction ts generalizing region held with
  | nil => rw [List.nil_append, hheld hts]; rfl
  | cons token rest ih =>
      rw [List.cons_append, verbatimTexts, verbatimTexts]
      rw [List.foldl_cons] at hts
      split
      · rename_i hopen
        exact ih (fun hclosed => by rw [hopen] at hclosed; cases hclosed) hts
      · split
        · rw [ih (fun _ => rfl) hts]; rfl
        · exact ih (fun _ => rfl) hts

/-- While a region stays open, the pieces of its tokens are put together. -/
theorem verbatimTexts_of_open {region : Region} {held : List Char} {ts : List Token}
    (hopen : ∀ front token, front ++ [token] <+: ts →
      ((front ++ [token]).foldl Region.after region).isVerbatim) (us : List Token) :
    verbatimTexts region held (ts ++ us) =
      verbatimTexts (ts.foldl Region.after region) (held ++ (ts.map Token.piece).flatten) us := by
  induction ts generalizing region held with
  | nil => simp
  | cons token rest ih =>
      have hfirst : (region.after token).isVerbatim := hopen [] token ⟨rest, rfl⟩
      rw [List.cons_append, verbatimTexts, if_pos hfirst, ih]
      · simp
      · rintro front next ⟨later, rfl⟩
        exact hopen (token :: front) next ⟨later, by simp⟩

/-- A region that begins where nothing is open, with all that stands before it and after
it: a start tag, tokens that leave the region open, and the end tag that closes it. -/
theorem verbatimTexts_region {before inner after : List Token} {name : String}
    {source : List Char} (hbefore : before.foldl Region.after .flow = .flow)
    (hname : verbatimElements.contains name)
    (hopen : ∀ front token, front ++ [token] <+: inner →
      ((front ++ [token]).foldl Region.after (.verbatim name 1)).isVerbatim)
    (hclose : inner.foldl Region.after (.verbatim name 1) = .verbatim name 1) :
    verbatimTexts .flow [] (before ++ .startTag name source :: (inner ++ .endTag name :: after)) =
      verbatimTexts .flow [] before ++
        (source ++ (inner.map Token.piece).flatten ++ closing name) ::
          verbatimTexts .flow [] after := by
  have hstart : Region.flow.after (.startTag name source) = .verbatim name 1 := by
    rw [Region.after, if_pos hname]
  have hend : (Region.verbatim name 1).after (.endTag name) = .flow := by simp [Region.after]
  have hverbatim : (Region.verbatim name 1).isVerbatim = true := rfl
  rw [verbatimTexts_append (fun _ => rfl) (by rw [hbefore]; rfl), hbefore, verbatimTexts, hstart,
    if_pos hverbatim, verbatimTexts_of_open hopen, hclose, verbatimTexts, hend]
  rfl

/-- Texts that stand in another, one after the other. -/
def OccurInOrder : List (List Char) → List Char → Prop
  | [], _ => True
  | text :: rest, whole => ∃ front back, whole = front ++ text ++ back ∧ OccurInOrder rest back

theorem OccurInOrder.append_left {texts : List (List Char)} {whole : List Char}
    (h : OccurInOrder texts whole) (front : List Char) : OccurInOrder texts (front ++ whole) := by
  cases texts with
  | nil => trivial
  | cons text rest =>
      obtain ⟨before, back, rfl, hrest⟩ := h
      exact ⟨front ++ before, back, by simp, hrest⟩

theorem OccurInOrder.append_right {texts : List (List Char)} {whole : List Char}
    (h : OccurInOrder texts whole) (extra : List Char) : OccurInOrder texts (whole ++ extra) := by
  induction texts generalizing whole with
  | nil => trivial
  | cons text rest ih =>
      obtain ⟨front, back, rfl, hrest⟩ := h
      exact ⟨front, back ++ extra, by simp, ih hrest⟩

namespace Region

variable {region : Region} {token : Token}

/-- A region is closed by the end tag of its element alone. -/
theorem eq_endTag_of_closed {element : String} {nesting : Nat}
    (hclosed : ((verbatim element nesting).after token).isVerbatim = false) :
    token = .endTag element ∧ nesting ≤ 1 := by
  cases token with
  | endTag name =>
      rw [after] at hclosed
      by_cases hname : name = element
      · rw [if_pos hname] at hclosed
        by_cases hnesting : nesting ≤ 1
        · exact ⟨hname ▸ rfl, hnesting⟩
        · rw [if_neg hnesting] at hclosed
          cases hclosed
      · rw [if_neg hname] at hclosed
        cases hclosed
  | _ => cases hclosed

/-- A region is opened by a start tag alone, where nothing is open. -/
theorem eq_startTag_of_opened (houtside : region.isVerbatim = false)
    (hopened : (region.after token).isVerbatim) :
    ∃ name source, region = .flow ∧ token = .startTag name source ∧
      verbatimElements.contains name ∧ region.after token = .verbatim name 1 := by
  cases region with
  | verbatim element nesting => cases houtside
  | script element =>
      cases token with
      | endTag name =>
          rw [after] at hopened
          split at hopened <;> cases hopened
      | _ => cases hopened
  | flow =>
      cases token with
      | startTag name source =>
          rw [after] at hopened
          by_cases hname : verbatimElements.contains name
          · exact ⟨name, source, rfl, rfl, hname, by rw [after, if_pos hname]⟩
          · rw [if_neg hname] at hopened
            split at hopened <;> cases hopened
      | _ => cases hopened

/-- What has been seen of a region begins with an angle bracket; outside of regions nothing
is kept. -/
def Holds (region : Region) (held : List Char) : Prop :=
  if region.isVerbatim then ∃ rest, held = '<' :: rest else held = []

theorem holds_of_not_isVerbatim (h : region.isVerbatim = false) : region.Holds [] := by
  simp [Holds, h]

theorem Holds.after {held : List Char} (h : region.Holds held) (htoken : token.Bracketed)
    (hnext : (region.after token).isVerbatim) :
    (region.after token).Holds (held ++ token.piece) := by
  unfold Holds
  rw [if_pos hnext]
  cases hregion : region.isVerbatim with
  | true =>
      rw [Holds, if_pos hregion] at h
      obtain ⟨first, rfl⟩ := h
      exact ⟨first ++ token.piece, rfl⟩
  | false =>
      obtain ⟨name, source, -, rfl, -⟩ := eq_startTag_of_opened hregion hnext
      rw [Holds, hregion] at h
      obtain rfl : held = [] := h
      exact htoken

end Region

/-- A text between angle brackets. -/
def Enclosed (text : List Char) : Prop :=
  ∃ inner, text = '<' :: inner ++ ['>']

theorem Region.Holds.enclosed {region : Region} {token : Token} {held : List Char}
    (h : region.Holds held) (hregion : region.isVerbatim)
    (hclosed : (region.after token).isVerbatim = false) : Enclosed (held ++ token.piece) := by
  rw [Holds, if_pos hregion] at h
  obtain ⟨first, rfl⟩ := h
  cases region with
  | verbatim element nesting =>
      obtain ⟨rfl, -⟩ := eq_endTag_of_closed hclosed
      exact ⟨first ++ '<' :: '/' :: element.toList, by simp [Token.piece, closing]⟩
  | flow => cases hregion
  | script element => cases hregion

/-- Every region is enclosed in angle brackets. -/
theorem enclosed_verbatimTexts {ts : List Token} (hts : Bracketed ts) {region : Region}
    {held : List Char} (hheld : region.Holds held) :
    ∀ text ∈ verbatimTexts region held ts, Enclosed text := by
  induction ts generalizing region held with
  | nil => simp [verbatimTexts]
  | cons token rest ih =>
      have htoken : token.Bracketed := hts token List.mem_cons_self
      have hrest : Bracketed rest := fun t ht => hts t (List.mem_cons_of_mem _ ht)
      rw [verbatimTexts]
      split
      · rename_i hnext
        exact ih hrest (hheld.after htoken hnext)
      · rename_i hnext
        have hclosed : (region.after token).isVerbatim = false := by simpa using hnext
        have hothers := ih hrest (Region.holds_of_not_isVerbatim hclosed)
        split
        · rename_i hregion
          intro text htext
          rcases List.mem_cons.1 htext with rfl | htext
          · exact hheld.enclosed hregion hclosed
          · exact hothers text htext
        · exact hothers

/-! ## Regions among lines -/

/-- A text as it is written at a depth: only its first line is indented. -/
def verbatimLines (depth : Nat) (text : List Char) : List (List Char) :=
  match splitAt '\n' text with
  | [] => []
  | first :: rest => (indent depth ++ first) :: rest

/-- Texts that are written among lines, one after the other. -/
def WrittenInOrder : List (List Char) → List (List Char) → Prop
  | [], _ => True
  | text :: rest, lines =>
      ∃ front depth back, lines = front ++ verbatimLines depth text ++ back ∧
        WrittenInOrder rest back

namespace WrittenInOrder

variable {texts lines : List (List Char)}

theorem append_left (h : WrittenInOrder texts lines) (front : List (List Char)) :
    WrittenInOrder texts (front ++ lines) := by
  cases texts with
  | nil => trivial
  | cons text rest =>
      obtain ⟨before, depth, back, rfl, hrest⟩ := h
      exact ⟨front ++ before, depth, back, by simp, hrest⟩

theorem append_right (h : WrittenInOrder texts lines) (extra : List (List Char)) :
    WrittenInOrder texts (lines ++ extra) := by
  induction texts generalizing lines with
  | nil => trivial
  | cons text rest ih =>
      obtain ⟨front, depth, back, rfl, hrest⟩ := h
      exact ⟨front, depth, back ++ extra, by simp, ih hrest⟩

end WrittenInOrder

theorem exists_verbatimLines (depth : Nat) (text : List Char) :
    ∃ first rest, splitAt '\n' text = first :: rest ∧
      verbatimLines depth text = (indent depth ++ first) :: rest := by
  obtain ⟨first, rest, hsplit⟩ :=
    List.exists_cons_of_ne_nil (splitBy_ne_nil (p := (· == '\n')) text)
  refine ⟨first, rest, hsplit, ?_⟩
  rw [verbatimLines, splitAt, hsplit]

/-- The lines of a region make up its text. -/
theorem joinWith_verbatimLines (depth : Nat) (text : List Char) :
    joinWith ['\n'] (verbatimLines depth text) = indent depth ++ text := by
  obtain ⟨first, rest, hsplit, hlines⟩ := exists_verbatimLines depth text
  rw [hlines, ← joinWith_splitAt '\n' text, hsplit]
  by_cases hrest : rest = []
  · simp [hrest]
  · rw [joinWith_cons _ _ hrest, joinWith_cons _ _ hrest, List.append_assoc]

theorem exists_joinWith_append (mark : List Char) (xs ys : List (List Char)) :
    ∃ glue, (glue = [] ∨ glue = mark) ∧
      joinWith mark (xs ++ ys) = joinWith mark xs ++ glue ++ joinWith mark ys := by
  by_cases hxs : xs = []
  · exact ⟨[], .inl rfl, by simp [hxs, joinWith]⟩
  · by_cases hys : ys = []
    · exact ⟨[], .inl rfl, by simp [hys, joinWith]⟩
    · exact ⟨mark, .inr rfl, by rw [joinWith_append mark hxs hys, List.append_assoc]⟩

/-- What is written among lines stands in the text that they make. -/
theorem WrittenInOrder.occurInOrder {texts lines : List (List Char)}
    (h : WrittenInOrder texts lines) : OccurInOrder texts (joinWith ['\n'] lines) := by
  induction texts generalizing lines with
  | nil => trivial
  | cons text rest ih =>
      obtain ⟨front, depth, back, rfl, hrest⟩ := h
      obtain ⟨last, -, hlast⟩ := exists_joinWith_append ['\n']
        (front ++ verbatimLines depth text) back
      obtain ⟨glue, -, hglue⟩ := exists_joinWith_append ['\n'] front (verbatimLines depth text)
      refine ⟨joinWith ['\n'] front ++ glue ++ indent depth, last ++ joinWith ['\n'] back, ?_,
        (ih hrest).append_left last⟩
      rw [hlast, hglue, joinWith_verbatimLines]
      simp

/-! ## Trimming -/

/-- A part that does not begin with what is dropped is not reached from the front. -/
theorem dropWhile_append_of_head? {α : Type} {p : α → Bool} (xs : List α) {ys : List α}
    (hys : ∀ y ∈ ys.head?, p y = false) : (xs ++ ys).dropWhile p = xs.dropWhile p ++ ys := by
  have hkept : ys.dropWhile p = ys := by
    cases ys with
    | nil => rfl
    | cons y ys => exact List.dropWhile_cons_of_neg (by simp [hys y rfl])
  rw [List.dropWhile_append, hkept]
  split
  · rename_i hempty
    rw [List.isEmpty_iff.1 hempty, List.nil_append]
  · rfl

/-- A part that does not end with what is dropped is not reached from the back. -/
theorem reverse_dropWhile_append_of_getLast? {α : Type} {p : α → Bool} {xs : List α}
    (hxs : ∀ x ∈ xs.getLast?, p x = false) (ys : List α) :
    ((xs ++ ys).reverse.dropWhile p).reverse = xs ++ (ys.reverse.dropWhile p).reverse := by
  rw [List.reverse_append, dropWhile_append_of_head? _ (by simpa using hxs), List.reverse_append,
    List.reverse_reverse]

/-- The first and the last line of an enclosed text are not blank. -/
theorem Enclosed.ends_verbatimLines {text : List Char} (h : Enclosed text) (depth : Nat) :
    (∀ line ∈ (verbatimLines depth text).head?, isEmptyLine line = false) ∧
      ∀ line ∈ (verbatimLines depth text).getLast?, isEmptyLine line = false := by
  obtain ⟨inner, rfl⟩ := h
  obtain ⟨first, rest, hsplit, hlines⟩ := exists_verbatimLines depth ('<' :: inner ++ ['>'])
  have hopen : '<' ≠ '\n' := by decide
  have hclose : '>' ≠ '\n' := by decide
  obtain ⟨start, others, hstart⟩ := exists_splitAt_cons hopen (inner ++ ['>'])
  obtain ⟨final, hfinal⟩ := exists_getLast?_splitAt hclose ('<' :: inner)
  obtain ⟨rfl, rfl⟩ : first = '<' :: start ∧ rest = others :=
    List.cons.inj (hsplit.symm.trans hstart)
  rw [hsplit] at hfinal
  rw [hlines]
  constructor
  · rintro line ⟨⟩
    exact not_blank_of_mem (c := '<') (by simp) (by decide)
  · intro line hline
    cases rest with
    | nil =>
        obtain rfl : indent depth ++ '<' :: start = line := by simpa using hline
        exact not_blank_of_mem (c := '<') (by simp) (by decide)
    | cons second rest =>
        rw [List.getLast?_cons_cons] at hfinal hline
        obtain rfl := Option.some.inj (hfinal.symm.trans hline)
        exact not_blank_of_mem (c := '>') (by simp) (by decide)

/-- Trimming cuts no region. -/
theorem WrittenInOrder.trimLines {texts lines : List (List Char)}
    (htexts : ∀ text ∈ texts, Enclosed text) (h : WrittenInOrder texts lines) :
    WrittenInOrder texts (trimLines lines) := by
  -- At the back the last region is in the way, which only an induction reaches; at the front
  -- it is the first.
  have hback : WrittenInOrder texts (lines.reverse.dropWhile isEmptyLine).reverse := by
    induction texts generalizing lines with
    | nil => trivial
    | cons text rest ih =>
        obtain ⟨front, depth, back, rfl, hrest⟩ := h
        obtain ⟨hhead, hlast⟩ := (htexts text List.mem_cons_self).ends_verbatimLines depth
        refine ⟨front, depth, (back.reverse.dropWhile isEmptyLine).reverse, ?_,
          ih (fun other hother => htexts other (List.mem_cons_of_mem _ hother)) hrest⟩
        refine reverse_dropWhile_append_of_getLast? ?_ back
        obtain ⟨first, others, -, hlines⟩ := exists_verbatimLines depth text
        rw [List.getLast?_append_of_ne_nil _ (by simp [hlines])]
        exact hlast
  rw [Markup.trimLines]
  generalize (lines.reverse.dropWhile isEmptyLine).reverse = kept at hback
  cases texts with
  | nil => trivial
  | cons text rest =>
      obtain ⟨front, depth, back, rfl, hrest⟩ := hback
      obtain ⟨hhead, -⟩ := (htexts text List.mem_cons_self).ends_verbatimLines depth
      refine ⟨front.dropWhile isEmptyLine, depth, back, ?_, hrest⟩
      rw [List.append_assoc, dropWhile_append_of_head?, List.append_assoc]
      obtain ⟨first, others, -, hlines⟩ := exists_verbatimLines depth text
      simpa [hlines] using hhead

/-! ## Lines that are written stay -/

namespace State

/-- What a state holds of an open region. -/
def copied (s : State) : List Char :=
  match s.verbatim with
  | some v => v.pieces.flatten
  | none => []

variable {s : State}

theorem copied_of_not_isVerbatim (h : s.region.isVerbatim = false) : s.copied = [] := by
  unfold copied
  cases hverbatim : s.verbatim with
  | none => rfl
  | some v => rw [region_verbatim hverbatim] at h; cases h

theorem exists_verbatim (h : s.region.isVerbatim) : ∃ v, s.verbatim = some v := by
  cases hverbatim : s.verbatim with
  | some v => exact ⟨v, rfl⟩
  | none =>
      cases hscript : s.script with
      | none => rw [region_flow hverbatim hscript] at h; cases h
      | some script => rw [region_script hverbatim hscript] at h; cases h

theorem lines_isPrefix_emit (s : State) (text : List Char) : s.lines <+: (s.emit text).lines := by
  rw [emit_eq, List.append_assoc]
  exact List.prefix_append _ _

theorem lines_emitLines (s : State) (text : List Char) :
    (s.emitLines text).lines = s.lines ++ (s.gapLine ++ verbatimLines s.depth text) := by
  obtain ⟨first, rest, hsplit, hlines⟩ := exists_verbatimLines s.depth text
  rw [emitLines_eq, hsplit, hlines, writeLines, emit_eq]
  simp

theorem lines_isPrefix_emitLines (s : State) (text : List Char) :
    s.lines <+: (s.emitLines text).lines := by
  rw [lines_emitLines]
  exact List.prefix_append _ _

theorem lines_isPrefix_foldl_emit (ls : List (List Char)) (s : State) :
    s.lines <+: (ls.foldl emit s).lines := by
  induction ls generalizing s with
  | nil => exact List.prefix_rfl
  | cons line rest ih => exact (s.lines_isPrefix_emit line).trans (ih _)

theorem lines_isPrefix_flush (s : State) : s.lines <+: s.flush.lines := by
  unfold flush
  split
  · exact List.prefix_rfl
  · exact lines_isPrefix_foldl_emit _ s

theorem lines_isPrefix_emitScript (s : State) (script : Script) :
    s.lines <+: (s.emitScript script).lines := by
  unfold emitScript
  dsimp only
  split
  · exact lines_isPrefix_emit { s with script := none } _
  · refine List.IsPrefix.trans ?_ (lines_isPrefix_emit _ _)
    exact (lines_isPrefix_emit { s with script := none } _).trans (List.prefix_append _ _)

theorem lines_isPrefix_openTag (s : State) (name : String) (source : List Char) :
    s.lines <+: (s.openTag name source).lines := by
  unfold openTag
  split
  · exact List.prefix_rfl
  · split
    · exact s.lines_isPrefix_flush
    · split
      · exact s.lines_isPrefix_flush
      · split
        · exact List.prefix_rfl
        · have hblock := s.lines_isPrefix_flush.trans (s.flush.lines_isPrefix_emit source)
          dsimp only
          split
          · exact hblock
          · exact hblock

theorem lines_isPrefix_emptyTag (s : State) (name : String) (source : List Char) :
    s.lines <+: (s.emptyTag name source).lines := by
  unfold emptyTag
  split
  · exact List.prefix_rfl
  · split
    · exact List.prefix_rfl
    · exact s.lines_isPrefix_flush.trans (s.flush.lines_isPrefix_emit source)

theorem lines_isPrefix_closeTag (s : State) (name : String) :
    s.lines <+: (s.closeTag name).lines := by
  unfold closeTag
  split
  · split
    · split
      · exact lines_isPrefix_emitLines { s with verbatim := none } _
      · exact List.prefix_rfl
    · exact List.prefix_rfl
  · split
    · exact s.lines_isPrefix_emitScript _
    · exact List.prefix_rfl
  · split
    · exact List.prefix_rfl
    · obtain ⟨stack, depth, hclose⟩ := s.flush.closeElement_spec name
      have hlines : (s.flush.closeElement name).lines = s.flush.lines := by rw [hclose]
      exact (hlines ▸ s.lines_isPrefix_flush).trans (lines_isPrefix_emit _ _)

theorem lines_text (s : State) (content : List Char) : (s.text content).lines = s.lines := by
  unfold text
  split
  · rfl
  · rfl
  · obtain ⟨more, spaced, wanted, after, hflow, -⟩ := s.flow_spec content
    rw [hflow]

theorem lines_reference (s : State) (piece : List Char) :
    (s.reference piece).lines = s.lines := by
  unfold reference
  split <;> rfl

theorem lines_isPrefix_block (s : State) (piece : List Char) :
    s.lines <+: (s.block piece).lines := by
  unfold block
  split
  · exact List.prefix_rfl
  · exact s.lines_isPrefix_flush.trans (s.flush.lines_isPrefix_emitLines piece)

/-- A token only adds lines. -/
theorem lines_isPrefix_step (s : State) (token : Token) : s.lines <+: (s.step token).lines := by
  cases token with
  | startTag name source => exact s.lines_isPrefix_openTag name source
  | emptyTag name source => exact s.lines_isPrefix_emptyTag name source
  | endTag name => exact s.lines_isPrefix_closeTag name
  | data content => exact (s.lines_text content) ▸ List.prefix_rfl
  | entity name | charCode digits => exact (s.lines_reference _) ▸ List.prefix_rfl
  | comment text | declaration text | markedSection text | instruction text =>
      exact s.lines_isPrefix_block _

theorem lines_isPrefix_foldl_step (ts : List Token) (s : State) :
    s.lines <+: (ts.foldl step s).lines := by
  induction ts generalizing s with
  | nil => exact List.prefix_rfl
  | cons token rest ih => exact (s.lines_isPrefix_step token).trans (ih _)

/-- So does the end of a text. -/
theorem lines_isPrefix_finish (s : State) : s.lines <+: s.finish.lines := by
  have hrest : ∀ t : State, t.lines <+: (match t.verbatim with
      | some v => t.emitVerbatim v
      | none => t).flush.lines := by
    intro t
    refine List.IsPrefix.trans ?_ (lines_isPrefix_flush _)
    split
    · exact lines_isPrefix_emitLines { t with verbatim := none } _
    · exact List.prefix_rfl
  unfold finish
  refine List.IsPrefix.trans ?_ (hrest _)
  split
  · exact s.lines_isPrefix_emitScript _
  · exact List.prefix_rfl

/-! ## Regions that are copied -/

theorem copied_copy (s : State) (v : Verbatim) (nesting : Nat) (piece : List Char) :
    (s.copy v nesting piece).copied = v.pieces.flatten ++ piece := by
  simp [copied, copy]

/-- Inside of a region that stays open, each kind of token is copied, by a branch of its own. -/
theorem exists_step_eq_copy {v : Verbatim} (hverbatim : s.verbatim = some v) {token : Token}
    (hregion : (s.region.after token).isVerbatim) :
    ∃ nesting, s.step token = s.copy v nesting token.piece := by
  cases token with
  | startTag name source => exact ⟨_, by simp only [step, openTag, hverbatim]; rfl⟩
  | emptyTag name source => exact ⟨_, by simp only [step, emptyTag, hverbatim]; rfl⟩
  | endTag name =>
      rw [region_verbatim hverbatim, Region.after] at hregion
      simp only [step, closeTag, hverbatim]
      split at hregion
      · rename_i hname
        rw [if_pos hname]
        split at hregion
        · cases hregion
        · rename_i hnesting
          exact ⟨_, if_neg hnesting⟩
      · rename_i hname
        exact ⟨_, if_neg hname⟩
  | data content => exact ⟨_, by simp only [step, text, hverbatim]; rfl⟩
  | entity name | charCode digits => exact ⟨_, by simp only [step, reference, hverbatim]; rfl⟩
  | comment text | declaration text | markedSection text | instruction text =>
      exact ⟨_, by simp only [step, block, hverbatim]; rfl⟩

/-- Where nothing is open, a start tag of a verbatim or script element ends the inline run and
opens the element; all other tokens leave nothing open. -/
theorem step_of_isFlow (hs : s.IsFlow) (token : Token) :
    (∃ name source, token = .startTag name source ∧ verbatimElements.contains name ∧
      s.step token = { s.flush with verbatim := some ⟨name, 1, [source]⟩ }) ∨
    (∃ name source, token = .startTag name source ∧ scriptElements.contains name ∧
      s.step token = { s.flush with script := some ⟨name, source, []⟩ }) ∨
    Region.flow.after token = .flow := by
  cases token with
  | startTag name source =>
      by_cases hverbatim : verbatimElements.contains name
      · exact .inl ⟨name, source, rfl, hverbatim, by
          simp only [step, openTag, hs.1, hverbatim, if_true]⟩
      · by_cases hscript : scriptElements.contains name
        · exact .inr (.inl ⟨name, source, rfl, hscript, by
            simp only [step, openTag, hs.1, hverbatim, hscript, if_true, Bool.false_eq_true,
              if_false]⟩)
        · exact .inr (.inr (by rw [Region.after, if_neg hverbatim, if_neg hscript]))
  | _ => exact .inr (.inr rfl)

/-- A token after which a region is open is added to it. -/
theorem copied_step {token : Token} (hregion : (s.region.after token).isVerbatim) :
    (s.step token).copied = s.copied ++ token.piece := by
  cases hinside : s.region.isVerbatim with
  | true =>
      obtain ⟨v, hverbatim⟩ := exists_verbatim hinside
      obtain ⟨nesting, hstep⟩ := exists_step_eq_copy hverbatim hregion
      rw [hstep, copied_copy, copied, hverbatim]
  | false =>
      obtain ⟨name, source, hflow, rfl, hname, -⟩ :=
        Region.eq_startTag_of_opened hinside hregion
      have hnone : s.verbatim = none := by
        cases hverbatim : s.verbatim with
        | none => rfl
        | some v => rw [region_verbatim hverbatim] at hflow; cases hflow
      rw [copied_of_not_isVerbatim hinside]
      simp only [step, openTag, hnone, hname, if_true]
      simp [copied, Token.piece]

/-- The end tag that closes a region writes it. -/
theorem lines_step_of_closed (token : Token) (hinside : s.region.isVerbatim)
    (hclosed : (s.region.after token).isVerbatim = false) :
    (s.step token).lines =
      s.lines ++ (s.gapLine ++ verbatimLines s.depth (s.copied ++ token.piece)) := by
  obtain ⟨v, hverbatim⟩ := exists_verbatim hinside
  rw [region_verbatim hverbatim] at hclosed
  obtain ⟨rfl, hnesting⟩ := Region.eq_endTag_of_closed hclosed
  have hcopied : s.copied ++ (Token.endTag v.element).piece =
      (v.pieces ++ [closing v.element]).flatten := by
    rw [copied, hverbatim]
    simp [Token.piece]
  simp only [step, closeTag, hverbatim, if_true, if_pos hnesting, emitVerbatim]
  rw [lines_emitLines, hcopied]
  rfl

end State

/-! ## Runs -/

/-- All regions that tokens close are found among the lines that the tokens add. -/
theorem written_foldl_step {c c' : Context} {s : State} (h : Fits c s) {ts : List Token}
    (hts : Follows c ts c') :
    ∃ new, (ts.foldl State.step s).lines = s.lines ++ new ∧
      WrittenInOrder (verbatimTexts s.region s.copied ts) new := by
  induction ts generalizing c s with
  | nil => exact ⟨[], by simp, trivial⟩
  | cons token rest ih =>
      obtain ⟨next, hnext, hrest⟩ := follows_cons.mp hts
      have hstep := advances_step h hnext
      obtain ⟨later, hlater, hwritten⟩ := ih hstep.fits hrest
      obtain ⟨first, hfirst⟩ := s.lines_isPrefix_step token
      rw [hstep.region] at hwritten
      -- The token leaves a region open, closes one, or has nothing to do with any.
      refine ⟨first ++ later, by rw [List.foldl_cons, hlater, ← hfirst, List.append_assoc], ?_⟩
      rw [verbatimTexts]
      split
      · rename_i hopen
        rw [State.copied_step hopen] at hwritten
        exact hwritten.append_left first
      · rename_i hopen
        have hclosed : (s.region.after token).isVerbatim = false := by simpa using hopen
        rw [State.copied_of_not_isVerbatim (hstep.region ▸ hclosed)] at hwritten
        split
        · rename_i hinside
          have hlines := hfirst.trans (State.lines_step_of_closed _ hinside hclosed)
          rw [List.append_cancel_left hlines]
          exact ⟨s.gapLine, s.depth, later, rfl, hwritten⟩
        · exact hwritten.append_left first

/-! ## Texts -/

/-- **Verbatim regions are printed as they are.**  The texts of the regions of `pre` and
`textarea` elements stand in the printed text, each in one piece and in their order. -/
theorem prettify_verbatim (width : Int) {text : List Char} {ts : List Token}
    (h : tokens text = .ok ts) :
    ∃ printed, prettify width text = .ok printed ∧
      OccurInOrder (verbatimTexts .flow [] ts) printed := by
  obtain ⟨c, hfollows⟩ := follows_tokens h
  obtain ⟨new, hnew, hwritten⟩ := written_foldl_step (fits_start width) hfollows
  have hheld : Region.flow.Holds [] := Region.holds_of_not_isVerbatim rfl
  have henclosed := enclosed_verbatimTexts (bracketed_tokens h) hheld
  -- What is left open at the end only adds lines after those of the regions.
  obtain ⟨extra, hextra⟩ := (ts.foldl State.step (State.start width)).lines_isPrefix_finish
  have hlines : layOut width ts = new ++ extra := by
    rw [layOut, ← hextra, hnew]
    rfl
  refine ⟨printLines (layOut width ts), by rw [prettify, h]; rfl, ?_⟩
  rw [hlines, printLines]
  exact ((hwritten.append_right extra).trimLines henclosed).occurInOrder.append_right _

/-- Two regions, the first of them with a start tag of its own element, white space at the
ends of lines and a blank line. -/
def twoRegions : List Char :=
  "<ul><pre>a \n\n\t<pre>&lt</pre> </pre>x<textarea>\r\n</textarea>".toList

/-- Both are printed as they are, but for the semicolon that the reference gets. -/
theorem prettify_verbatim_twoRegions :
    ∃ ts, tokens twoRegions = .ok ts ∧ ∃ printed, prettify 40 twoRegions = .ok printed ∧
      OccurInOrder ["<pre>a \n\n\t<pre>&lt;</pre> </pre>".toList,
        "<textarea>\r\n</textarea>".toList] printed := by
  have hread : ∃ ts, tokens twoRegions = .ok ts ∧ verbatimTexts .flow [] ts =
      ["<pre>a \n\n\t<pre>&lt;</pre> </pre>".toList, "<textarea>\r\n</textarea>".toList] :=
    ⟨_, rfl, by decide +kernel⟩
  obtain ⟨ts, htokens, hregions⟩ := hread
  refine ⟨ts, htokens, ?_⟩
  rw [← hregions]
  exact prettify_verbatim 40 htokens

end Folio.Markup
