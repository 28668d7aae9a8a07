import Folio.Proofs.Markup.Spread

/-!
# Items as they are printed

Pretty-printing moves the body of a script and leaves every other item as it is:
`Item.printedAt`.  The lines of a block, joined, are the text of the block as it is
printed (`Item.text_printedAt`), and printing it once more writes the same lines
(`Item.lines_printedAt`).  All lines that are written for an item begin and end with
ink, so that the white space between two lines is a gap of the printed text and no part
of an item (`joinWith_gapLine`).
-/

namespace Folio.Markup

open Text

/-! ## Items as they are printed -/

/-- An item as it is printed at a depth: only a script body is moved. -/
def Item.printedAt (depth : Nat) : Item → Item
  | .script t body =>
      .script t (if (trimBy isLayoutBlank body).isEmpty then [] else reindented depth body)
  | i => i

theorem ink_eq_nil_iff_of_isScriptBody {body : List Char} (hbody : IsScriptBody body) :
    (trimBy isLayoutBlank body).isEmpty = true ↔ ink body = [] := by
  have htrim : ink (trimBy isLayoutBlank body) = ink body :=
    ink_trimBy isBlank_of_isLayoutBlank body
  constructor
  · intro hempty
    rw [← htrim, List.isEmpty_iff.mp hempty, ink_nil]
  · intro hink
    have hblank : ∀ c ∈ body, isLayoutBlank c = true := by
      intro c hc
      have hc' : isBlank c = true := by
        rw [ink, List.filter_eq_nil_iff] at hink
        simpa using hink c hc
      rcases hbody.blanks c hc hc' with rfl | rfl | rfl <;> rfl
    have hleft : body.dropWhile isLayoutBlank = [] := List.dropWhile_eq_nil_iff.mpr hblank
    rw [trimBy, trimLeft, hleft]
    rfl

section

variable {i : Item} {depth : Nat}

theorem Item.printedAt_wellFormed (hi : i.WellFormed) : (i.printedAt depth).WellFormed := by
  cases i with
  | script t body =>
      obtain ⟨ht, hclosed, helement, hbody⟩ := hi
      refine ⟨ht, hclosed, helement, ?_⟩
      split
      · exact ⟨by simp, by simp⟩
      · rename_i hempty
        exact isScriptBody_reindented hbody
          (fun hink => hempty ((ink_eq_nil_iff_of_isScriptBody hbody).mpr hink)) depth
  | _ => exact hi

/-- An item as it is printed is laid out in the same lines. -/
theorem Item.lines_printedAt (hi : i.WellFormed) :
    (i.printedAt depth).lines depth = i.lines depth := by
  cases i with
  | script t body =>
      obtain ⟨-, -, -, hbody⟩ := hi
      rw [printedAt]
      by_cases hempty : (trimBy isLayoutBlank body).isEmpty = true
      · have hnil : (trimBy isLayoutBlank []).isEmpty = true := rfl
        rw [if_pos hempty, lines, if_pos hnil, lines, if_pos hempty]
      · have hink : ink body ≠ [] := fun hink =>
          hempty ((ink_eq_nil_iff_of_isScriptBody hbody).mpr hink)
        have hagain : ¬ (trimBy isLayoutBlank (reindented depth body)).isEmpty = true := fun h => by
          rw [ink_eq_nil_iff_of_isScriptBody (isScriptBody_reindented hbody hink depth),
            ink_reindented] at h
          exact hink h
        rw [if_neg hempty, lines, if_neg hagain, scriptLines_reindented hbody.blanks hink, lines,
          if_neg hempty]
  | _ => rfl

theorem Item.layBlock_printedAt (hi : i.WellFormed) (s : State)
    (hdepth : depth = (i.enter s).depth) : (i.printedAt depth).layBlock s = i.layBlock s := by
  have hlines : (i.printedAt depth).lines depth = i.lines depth := lines_printedAt hi
  cases i with
  | script t body =>
      change State.writeLines s _ = State.writeLines s _
      have hdepth : depth = s.depth := hdepth
      rw [hdepth] at hlines ⊢
      exact congrArg (State.writeLines s) hlines
  | _ => rfl

theorem Item.isInline_printedAt : (i.printedAt depth).isInline = i.isInline := by
  cases i <;> rfl

theorem Item.isGap_printedAt : (i.printedAt depth).isGap = i.isGap := by
  cases i <;> rfl

/-- The lines of a block, joined, are the block as it is printed. -/
theorem Item.text_printedAt (i : Item) (depth : Nat) :
    (i.printedAt depth).text = joinWith ['\n'] (i.lines depth) := by
  cases i with
  | phrase p => simp [printedAt, lines, text, piece, Phrase.text]
  | script t body =>
      rw [printedAt, lines]
      split
      · simp [text, piece, Piece.text]
      · rw [joinWith_cons _ _ (by simp)]
        have hne : State.scriptLines depth body ≠ [] := by
          rw [scriptLines_eq]
          simp [splitAt, splitBy_ne_nil]
        rw [joinWith_append _ hne (by simp), joinWith_singleton]
        simp [text, piece, Piece.text, reindented]
  | _ => exact (joinWith_splitAt '\n' _).symm

end

/-! ## Ink -/

/-- A construct begins with one bracket and, if it is a block, ends with the other. -/
theorem Item.text_brackets {i : Item} (hinline : i.isInline = false) (hgap : i.isGap = false) :
    (∃ rest, i.text = '<' :: rest) ∧ ∃ front, i.text = front ++ ['>'] := by
  have htag : ∀ t : Tag, (∃ rest, t.text = '<' :: rest) ∧ ∃ front, t.text = front ++ ['>'] := by
    intro t
    refine ⟨⟨_, rfl⟩, ?_⟩
    cases hclosed : t.closed
    · exact ⟨'<' :: (t.name ++ (t.attributes.flatMap Attribute.text ++ t.space)), by
        simp [Tag.text, Tag.body, insideOf, closeOf, hclosed]⟩
    · exact ⟨'<' :: (t.name ++ (t.attributes.flatMap Attribute.text ++ (t.space ++ ['/']))), by
        simp [Tag.text, Tag.body, insideOf, closeOf, hclosed]⟩
  have hclosing : ∀ (front : List Char) (name : String),
      ∃ before, front ++ closing name = before ++ ['>'] := fun front name =>
    ⟨front ++ '<' :: '/' :: name.toList, by simp [closing]⟩
  cases i with
  | phrase p =>
      cases p with
      | word text => cases hinline
      | gap text => cases hgap
      | reference r => cases hinline
      | tag t => exact htag t
      | endTag name => exact ⟨⟨_, rfl⟩, hclosing [] _⟩
  | comment body =>
      exact ⟨⟨_, rfl⟩, '<' :: '!' :: '-' :: '-' :: (body ++ ['-', '-']), by
        simp [text, piece, Piece.text]⟩
  | doctype keyword body =>
      exact ⟨⟨_, rfl⟩, '<' :: '!' :: (keyword ++ body), by simp [text, piece, Piece.text]⟩
  | verbatim t content =>
      refine ⟨⟨_, rfl⟩, ?_⟩
      obtain ⟨before, hbefore⟩ := hclosing (t.text ++ contentOf content) t.element
      exact ⟨before, by rw [← hbefore]; simp [text, piece, Piece.text]⟩
  | script t body =>
      refine ⟨⟨_, rfl⟩, ?_⟩
      obtain ⟨before, hbefore⟩ := hclosing (t.text ++ body) t.element
      exact ⟨before, by rw [← hbefore]; simp [text, piece, Piece.text]⟩

/-- The last line of a text that ends in a character that is no line end. -/
theorem splitAt_concat (s : List Char) {c : Char} (hc : c ≠ '\n') :
    ∃ front last, splitAt '\n' (s ++ [c]) = front ++ [last ++ [c]] := by
  have hmark : (c == '\n') = false := by simpa using hc
  induction s with
  | nil => exact ⟨[], [], by simp [splitAt, splitBy, hmark]⟩
  | cons d s ih =>
      obtain ⟨front, last, hsplit⟩ := ih
      rw [splitAt] at hsplit ⊢
      rw [List.cons_append, splitBy, hsplit]
      split
      · exact ⟨[] :: front, last, rfl⟩
      · cases front with
        | nil => exact ⟨[], d :: last, rfl⟩
        | cons f fs => exact ⟨(d :: f) :: fs, last, rfl⟩

/-- Lines of which neither the first nor the last is blank. -/
structure Inked (lines : List (List Char)) : Prop where
  head : ∀ line ∈ lines.head?, isEmptyLine line = false
  last : ∀ line ∈ lines.getLast?, isEmptyLine line = false

/-- Lines around those that are kept when blank ones are trimmed off both ends. -/
structure Trimmed (lines above kept below : List (List Char)) : Prop where
  eq : lines = above ++ (kept ++ below)
  blank : ∀ line ∈ above ++ below, isEmptyLine line = true
  inked : Inked kept

theorem exists_trimmed (lines : List (List Char)) :
    ∃ above below, Trimmed lines above (trimLines lines) below := by
  have hlines : lines = (lines.reverse.dropWhile isEmptyLine).reverse ++
      (lines.reverse.takeWhile isEmptyLine).reverse := by
    rw [← List.reverse_append, List.takeWhile_append_dropWhile, List.reverse_reverse]
  have hback : ∀ line ∈ (lines.reverse.dropWhile isEmptyLine).reverse.getLast?,
      isEmptyLine line = false := by
    intro line hline
    rw [List.getLast?_reverse] at hline
    have hfirst := List.head?_dropWhile_not isEmptyLine lines.reverse
    rw [Option.mem_def.mp hline] at hfirst
    exact hfirst
  rw [trimLines]
  generalize (lines.reverse.dropWhile isEmptyLine).reverse = front at hback hlines
  have hfront := List.takeWhile_append_dropWhile (p := isEmptyLine) (l := front)
  refine ⟨front.takeWhile isEmptyLine, (lines.reverse.takeWhile isEmptyLine).reverse, ?_, ?_, ?_, ?_⟩
  · rw [← List.append_assoc, hfront]
    exact hlines
  · intro line hline
    rcases List.mem_append.mp hline with hline | hline
    · exact List.mem_takeWhile_imp (p := isEmptyLine) hline
    · exact List.mem_takeWhile_imp (p := isEmptyLine) (List.mem_reverse.mp hline)
  · intro line hline
    have hfirst := List.head?_dropWhile_not isEmptyLine front
    rw [Option.mem_def.mp hline] at hfirst
    exact hfirst
  · intro line hline
    apply hback
    rw [← hfront, List.getLast?_append, Option.mem_def.mp hline]
    rfl

theorem inked_singleton {line : List Char} (h : isEmptyLine line = false) : Inked [line] := by
  constructor <;>
    · intro found hfound
      obtain rfl : line = found := by simpa using hfound
      exact h

theorem Inked.indent {first : List Char} {rest : List (List Char)} (h : Inked (first :: rest))
    (depth : Nat) : Inked ((indent depth ++ first) :: rest) := by
  have hfirst : isEmptyLine (Markup.indent depth ++ first) = false := by
    rw [isEmptyLine_append, h.head first rfl, Bool.and_false]
  cases rest with
  | nil => exact inked_singleton hfirst
  | cons second rest =>
      refine ⟨fun line hline => ?_, h.last⟩
      obtain rfl := Option.some.inj hline
      exact hfirst

/-- The lines of a block begin and end with ink. -/
theorem Item.inked_lines {i : Item} (hinline : i.isInline = false) (hgap : i.isGap = false)
    (depth : Nat) : i.lines depth ≠ [] ∧ Inked (i.lines depth) := by
  obtain ⟨⟨tail, hhead⟩, front, hlast⟩ := Item.text_brackets hinline hgap
  have hsingle : ∀ text : List Char, '<' ∈ text → [text] ≠ [] ∧ Inked [text] := fun text hmem =>
    ⟨List.cons_ne_nil _ _, inked_singleton (not_blank_of_mem hmem (by decide))⟩
  have hsplit : splitAt '\n' i.text ≠ [] ∧ Inked (splitAt '\n' i.text) := by
    refine ⟨splitBy_ne_nil _, fun line hline => ?_, fun line hline => ?_⟩
    · obtain ⟨first, rest, hcons⟩ :=
        List.exists_cons_of_ne_nil (splitBy_ne_nil (p := (· == '\n')) tail)
      rw [hhead, splitAt, splitBy, hcons] at hline
      obtain rfl := Option.some.inj hline
      exact not_blank_of_mem (List.mem_cons_self ..) (by decide)
    · obtain ⟨lines, last, hconcat⟩ := splitAt_concat front (c := '>') (by decide)
      rw [hlast, hconcat, List.getLast?_concat] at hline
      obtain rfl := Option.some.inj hline
      exact not_blank_of_mem (c := '>') (by simp) (by decide)
  cases i with
  | phrase p => exact hsingle _ (by rw [Item.text, Item.piece] at hhead; simp [Phrase.text, hhead])
  | comment body => exact hsplit
  | doctype keyword body => exact hsplit
  | verbatim t content => exact hsplit
  | script t body =>
      rw [Item.lines]
      split
      · exact hsingle _ (by simp [Tag.text])
      · refine ⟨List.cons_ne_nil _ _, fun line hline => ?_, fun line hline => ?_⟩
        · obtain rfl := Option.some.inj hline
          exact not_blank_of_mem (c := '<') (by simp [Tag.text]) (by decide)
        · rw [← List.cons_append, List.getLast?_concat] at hline
          obtain rfl := Option.some.inj hline
          exact not_blank_of_mem (c := '<') (by simp [closing]) (by decide)

/-- An inline item has ink. -/
theorem Item.not_blank_of_inline {i : Item} (hi : i.WellFormed) (hinline : i.isInline = true) :
    isEmptyLine i.text = false := by
  cases i with
  | phrase p =>
      cases p with
      | word text =>
          obtain ⟨c, rest, rfl⟩ := List.exists_cons_of_ne_nil hi.1
          exact not_blank_of_mem (List.mem_cons_self ..) (hi.2 c (List.mem_cons_self ..)).1
      | gap text => cases hinline
      | reference r => exact not_blank_of_mem (c := '&') (List.mem_cons_self ..) (by decide)
      | tag t => exact not_blank_of_mem (c := '<') (List.mem_cons_self ..) (by decide)
      | endTag name => exact not_blank_of_mem (c := '<') (List.mem_cons_self ..) (by decide)
  | _ => cases hinline

/-- The lines of a run have ink. -/
theorem fill_not_blank (room : Nat) {current : List Char}
    (hcurrent : current = [] ∨ isEmptyLine current = false) {atoms : List Atom}
    (hatoms : ∀ a ∈ atoms, isEmptyLine a.text = false) :
    ∀ line ∈ fill room current atoms, isEmptyLine line = false := by
  induction atoms generalizing current with
  | nil =>
      intro line hline
      rw [fill] at hline
      split at hline
      · cases hline
      · rename_i hne
        obtain rfl := List.mem_singleton.mp hline
        exact hcurrent.resolve_left fun heq => hne (by simp [heq])
  | cons a rest ih =>
      have ha := hatoms a (List.mem_cons_self ..)
      have hrest : ∀ b ∈ rest, isEmptyLine b.text = false := fun b hb =>
        hatoms b (List.mem_cons_of_mem _ hb)
      intro line hline
      rw [fill] at hline
      split at hline
      · exact ih (.inr ha) hrest line hline
      · rename_i hne
        have hink : isEmptyLine current = false :=
          hcurrent.resolve_left fun heq => hne (by simp [heq])
        split at hline
        · exact ih (.inr (by rw [isEmptyLine_append, hink, Bool.false_and])) hrest line hline
        · split at hline
          · rcases List.mem_cons.mp hline with rfl | hline
            · exact hink
            · exact ih (.inr ha) hrest line hline
          · exact ih (.inr (by rw [isEmptyLine_append, hink, Bool.false_and])) hrest line hline

/-! ## The lines written so far -/

/-- What stands between two items on different lines. -/
def lineSep (blank : Bool) (depth : Nat) : List Char :=
  (if blank then ['\n', '\n'] else ['\n']) ++ indent depth

theorem isGap_lineSep (blank : Bool) (depth : Nat) : IsGap (lineSep blank depth) := by
  refine ⟨by cases blank <;> simp [lineSep], fun c hc => ?_⟩
  rcases List.mem_append.mp hc with hc | hc
  · cases blank <;> simp at hc <;> rw [hc] <;> rfl
  · exact isLayoutBlank_indent depth c hc

theorem hasBlankLine_lineSep (blank : Bool) (depth : Nat) :
    State.hasBlankLine (lineSep blank depth) = blank := by
  have hindent : (indent depth).count '\n' = 0 := by
    rw [List.count_eq_zero, indent, List.mem_replicate]
    rintro ⟨-, h⟩
    exact absurd h (by decide)
  cases blank <;> simp [State.hasBlankLine, lineSep, hindent]

theorem joinWith_append_first (mark front first : List Char) (rest : List (List Char)) :
    joinWith mark ((front ++ first) :: rest) = front ++ joinWith mark (first :: rest) := by
  by_cases hrest : rest = []
  · simp [hrest]
  · rw [joinWith_cons _ _ hrest, joinWith_cons _ _ hrest, List.append_assoc]

/-- Lines that follow others, after a blank line if one is wanted. -/
theorem joinWith_gapLine {s : State} (hne : s.lines ≠ [])
    (hlast : ∀ line ∈ s.lines.getLast?, isEmptyLine line = false) {lines : List (List Char)}
    (hlines : lines ≠ []) :
    joinWith ['\n'] (s.lines ++ s.gapLine ++ lines) =
      joinWith ['\n'] s.lines ++
        ((if s.blankWanted then ['\n', '\n'] else ['\n']) ++ joinWith ['\n'] lines) := by
  have hgap : s.gapLine = if s.blankWanted then [[]] else [] := by
    obtain ⟨line, hline⟩ : ∃ line, s.lines.getLast? = some line :=
      ⟨_, List.getLast?_eq_some_getLast hne⟩
    have hink := hlast line hline
    have hnonempty : line.isEmpty = false := by
      cases line with
      | nil => cases hink
      | cons c rest => rfl
    rw [State.gapLine, hline]
    simp [hnonempty]
  rw [hgap]
  cases s.blankWanted with
  | true =>
      rw [List.append_assoc, joinWith_append _ hne (by simp)]
      simp only [if_true, List.singleton_append]
      rw [joinWith_cons _ _ hlines]
      simp
  | false => simp [joinWith_append _ hne hlines]

end Folio.Markup
