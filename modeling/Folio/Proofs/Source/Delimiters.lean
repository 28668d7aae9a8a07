import Folio.Proofs.Source.TagSpellings
import Folio.Source.Frontmatter

/-!
# Frontmatter line by line

A text is a list of lines, each ended by a line feed, which a carriage return may precede; only
the last can be without an end (`textLines`).  A delimiter is a line of three dashes with spaces
or tabs behind them.

Frontmatter is found by looking at characters.  `splitFrontmatter_eq` says what is found in terms
of lines: the first line is a delimiter with an end, the block is closed by the first delimiter
from the third line on, and the lines in between, the last without its end, are the body.  The
second line is never looked at, so that a block without any line between its delimiters is not
found: this is the exception in `frontmatter_of_textLines`.
-/

namespace Folio.Source

open Text

/-! ## Lines -/

/-- A line of a text: what stands on it, and what ends it. -/
structure Line where
  content : List Char
  ending : List Char
  deriving Repr, DecidableEq

namespace Line

def text (l : Line) : List Char :=
  l.content ++ l.ending

/-- What stands on a line has no line end in it, and a carriage return in front of a line feed
belongs to the end. -/
structure WellFormed (l : Line) : Prop where
  ending : l.ending = [] ∨ l.ending = ['\n'] ∨ l.ending = ['\r', '\n']
  content : '\n' ∉ l.content
  noReturn : l.ending = ['\n'] → l.content.getLast? ≠ some '\r'

/-- Three dashes, and spaces or tabs behind them. -/
def IsDelimiter (l : Line) : Prop :=
  l.content.take 3 = ['-', '-', '-'] ∧ (l.content.drop 3).all isSpaceOrTab = true

instance : DecidablePred IsDelimiter := fun l =>
  inferInstanceAs (Decidable (l.content.take 3 = ['-', '-', '-'] ∧
    (l.content.drop 3).all isSpaceOrTab = true))

/-- A delimiter that is ended. -/
def Opens (l : Line) : Prop :=
  l.IsDelimiter ∧ l.ending ≠ []

instance : DecidablePred Opens := fun l =>
  inferInstanceAs (Decidable (l.IsDelimiter ∧ l.ending ≠ []))

end Line

/-- The text of some lines. -/
def linesText (ls : List Line) : List Char :=
  ls.flatMap Line.text

/-- The text of some lines without the end of the last. -/
def withoutLastEnd : List Line → List Char
  | [] => []
  | [last] => last.content
  | l :: next :: rest => l.text ++ withoutLastEnd (next :: rest)

/-- Adds a character in front of the first line. -/
def addToFirst (c : Char) : List Line → List Line
  | [] => [⟨[c], []⟩]
  | l :: rest => ⟨c :: l.content, l.ending⟩ :: rest

/-- The lines of a text. -/
def textLines : List Char → List Line
  | [] => []
  | '\r' :: '\n' :: s => ⟨[], ['\r', '\n']⟩ :: textLines s
  | c :: s => if c = '\n' then ⟨[], ['\n']⟩ :: textLines s else addToFirst c (textLines s)

/-- Lines one after the other as they make up a text: a line without an end is the last. -/
inductive AreLines : List Line → Prop
  | nil : AreLines []
  | last {l : Line} (hl : l.WellFormed) : AreLines [l]
  | cons {l : Line} {rest : List Line} (hl : l.WellFormed) (hend : l.ending ≠ [])
      (hrest : AreLines rest) : AreLines (l :: rest)

theorem AreLines.head {l : Line} {rest : List Line} (h : AreLines (l :: rest)) :
    l.WellFormed ∧ (l.ending = [] → rest = []) := by
  cases h with
  | last hl => exact ⟨hl, fun _ => rfl⟩
  | cons hl hend _ => exact ⟨hl, fun hnil => absurd hnil hend⟩

theorem AreLines.tail {l : Line} {rest : List Line} (h : AreLines (l :: rest)) :
    AreLines rest := by
  cases h with
  | last _ => exact .nil
  | cons _ _ hrest => exact hrest

theorem linesText_addToFirst (c : Char) (ls : List Line) :
    linesText (addToFirst c ls) = c :: linesText ls := by
  cases ls <;> simp [addToFirst, linesText, Line.text]

/-- The lines of a text make up the text. -/
theorem linesText_textLines (s : List Char) : linesText (textLines s) = s := by
  fun_induction textLines s with
  | case1 => rfl
  | case2 s ih => simpa [linesText, Line.text] using ih
  | case3 s _ ih => simpa [linesText, Line.text] using ih
  | case4 c s _ _ ih => rw [linesText_addToFirst, ih]

/-- A character that begins no line end may be added to the first line. -/
theorem areLines_addToFirst {c : Char} (hfeed : c ≠ '\n') {ls : List Line} (h : AreLines ls)
    (hreturn : c = '\r' → (linesText ls).head? ≠ some '\n') : AreLines (addToFirst c ls) := by
  have hwell : ∀ l : Line, l.WellFormed → (c = '\r' → (l.text).head? ≠ some '\n') →
      (⟨c :: l.content, l.ending⟩ : Line).WellFormed := by
    intro l hl hhead
    refine ⟨hl.ending, by simp [hfeed.symm, hl.content], fun hend => ?_⟩
    cases hcontent : l.content with
    | nil =>
        intro hlast
        obtain rfl : c = '\r' := by simpa using hlast
        exact hhead rfl (by simp [Line.text, hcontent, show l.ending = ['\n'] from hend])
    | cons d content =>
        rw [List.getLast?_cons_cons, ← hcontent]
        exact hl.noReturn hend
  cases h with
  | nil => exact .last (hwell ⟨[], []⟩ ⟨.inl rfl, by simp, by simp⟩ (by simp [Line.text]))
  | @last l hl => exact .last (hwell l hl (by simpa [linesText] using hreturn))
  | @cons l rest hl hend hrest =>
      refine .cons (hwell l hl fun hc hhead => hreturn hc ?_) hend hrest
      rw [linesText, List.flatMap_cons, List.head?_append, hhead]
      rfl

theorem areLines_textLines (s : List Char) : AreLines (textLines s) := by
  fun_induction textLines s with
  | case1 => exact .nil
  | case2 s ih => exact .cons ⟨.inr (.inr rfl), by simp, by simp⟩ (by simp) ih
  | case3 s _ ih => exact .cons ⟨.inr (.inl rfl), by simp, by simp⟩ (by simp) ih
  | case4 c s hreturn hfeed ih =>
      refine areLines_addToFirst hfeed ih fun hc hhead => ?_
      rw [linesText_textLines] at hhead
      cases s with
      | nil => cases hhead
      | cons d s =>
          obtain rfl : d = '\n' := by simpa using hhead
          exact hreturn s hc rfl

/-! ## Delimiters -/

/-- Spaces and tabs behind three dashes are dropped up to the end of a delimiter. -/
theorem dashes_of_isDelimiter {l : Line} (hl : l.WellFormed) (h : l.IsDelimiter)
    {rest : List Char} (hrest : l.ending = [] → rest = []) :
    dashes (l.text ++ rest) = some (l.ending ++ rest) := by
  obtain ⟨hdashes, hblanks⟩ := h
  have hcontent : l.content = ['-', '-', '-'] ++ l.content.drop 3 := by
    rw [← hdashes, List.take_append_drop]
  have hstop : (l.ending ++ rest).dropWhile isSpaceOrTab = l.ending ++ rest := by
    rcases hl.ending with hend | hend | hend
    · simp [hend, hrest hend]
    · rw [hend]
      rfl
    · rw [hend]
      rfl
  rw [Line.text, hcontent, List.append_assoc, List.append_assoc, dashes, dropWord_append,
    Option.map_some, List.dropWhile_append_of_pos (List.all_eq_true.mp hblanks), hstop]

theorem lineEnd_eq_none {c : Char} (hfeed : c ≠ '\n') {s : List Char}
    (hreturn : c = '\r' → s.head? ≠ some '\n') : lineEnd (c :: s) = none := by
  unfold lineEnd
  split
  · rename_i heq
    obtain ⟨hc, rfl⟩ := List.cons.inj heq
    exact absurd rfl (hreturn hc)
  · rename_i heq
    exact absurd (List.cons.inj heq).1 hfeed
  · rfl

/-- Within a line there is no line end. -/
theorem lineEnd_within {l : Line} (hl : l.WellFormed) {rest : List Char}
    (hrest : l.ending = [] → rest = []) {front back : List Char} {c : Char}
    (hsplit : l.content = front ++ c :: back) :
    lineEnd (c :: (back ++ (l.ending ++ rest))) = none := by
  have hnot : ∀ d ∈ c :: back, d ≠ '\n' := fun d hd heq =>
    hl.content (by rw [hsplit, ← heq]; exact List.mem_append_right _ hd)
  refine lineEnd_eq_none (hnot c List.mem_cons_self) fun hc hhead => ?_
  cases back with
  | cons d back =>
      obtain rfl : d = '\n' := by simpa using hhead
      exact hnot '\n' (by simp) rfl
  | nil =>
      -- the carriage return would belong to the end of the line
      rcases hl.ending with hend | hend | hend
      · rw [hend, hrest hend] at hhead
        cases hhead
      · refine hl.noReturn hend ?_
        rw [hsplit, hc, List.getLast?_concat]
      · rw [hend] at hhead
        exact absurd hhead (by simp)

/-- Behind three dashes, a line that is no delimiter goes on with something else. -/
theorem dashes_of_not_isDelimiter {l : Line} (hl : l.WellFormed) (h : ¬ l.IsDelimiter)
    {rest : List Char} (hrest : l.ending = [] → rest = []) {u : List Char}
    (hdashes : dashes (l.text ++ rest) = some u) : u ≠ [] ∧ lineEnd u = none := by
  obtain ⟨v, hword, rfl⟩ := Option.map_eq_some_iff.mp hdashes
  have htext : l.content ++ (l.ending ++ rest) = ['-', '-', '-'] ++ v := by
    rw [← eq_append_of_dropWord hword, Line.text, List.append_assoc]
  -- the dashes stand on the line, since no line end begins with a dash
  obtain ⟨back, hback, rfl⟩ : ∃ back, l.content = ['-', '-', '-'] ++ back ∧
      v = back ++ (l.ending ++ rest) := by
    rcases List.append_eq_append_iff.mp htext with ⟨inner, hinner, hmore⟩ | ⟨inner, hinner, hmore⟩
    · cases inner with
      | nil => exact ⟨[], by simpa using hinner.symm, by simpa using hmore.symm⟩
      | cons c inner =>
          have hc : c = '-' := by
            have hmem : c ∈ ['-', '-', '-'] := by rw [hinner]; simp
            simpa using hmem
          rcases hl.ending with hend | hend | hend
          · rw [hend, hrest hend] at hmore
            cases hmore
          · rw [hend, hc] at hmore
            exact absurd (List.cons.inj hmore).1 (by decide)
          · rw [hend, hc] at hmore
            exact absurd (List.cons.inj hmore).1 (by decide)
    · exact ⟨inner, hinner, hmore⟩
  have hnot : ¬ ∀ c ∈ back, isSpaceOrTab c = true := fun hall => h ⟨by simp [hback], by
    simpa [hback] using hall⟩
  have hsplit := List.takeWhile_append_dropWhile (p := isSpaceOrTab) (l := back)
  cases hdrop : back.dropWhile isSpaceOrTab with
  | nil => exact absurd (List.dropWhile_eq_nil_iff.mp hdrop) hnot
  | cons c tail =>
      have hu : (back ++ (l.ending ++ rest)).dropWhile isSpaceOrTab =
          c :: (tail ++ (l.ending ++ rest)) := by
        rw [List.dropWhile_append, hdrop]
        rfl
      have hcontent : l.content =
          (['-', '-', '-'] ++ back.takeWhile isSpaceOrTab) ++ c :: tail := by
        rw [hback, List.append_assoc, ← hdrop, hsplit]
      rw [hu]
      exact ⟨List.cons_ne_nil _ _, lineEnd_within hl hrest hcontent⟩

/-- What follows a closing line, read from its beginning. -/
def closingDashes (s : List Char) : Option (List Char) :=
  (dashes s).bind fun rest => if rest.isEmpty then some [] else lineEnd rest

theorem lineEnd_ending {l : Line} (hl : l.WellFormed) (hend : l.ending ≠ []) (rest : List Char) :
    lineEnd (l.ending ++ rest) = some rest := by
  rcases hl.ending with h | h | h
  · exact absurd h hend
  · rw [h]
    rfl
  · rw [h]
    rfl

/-- A block is opened by a delimiter with an end. -/
theorem opening_linesText {l : Line} {rest : List Line} (h : AreLines (l :: rest)) :
    (dashes (linesText (l :: rest))).bind lineEnd =
      if l.Opens then some (linesText rest) else none := by
  obtain ⟨hl, hlast⟩ := h.head
  have hrest : l.ending = [] → linesText rest = [] := fun hend => by rw [hlast hend]; rfl
  rw [linesText, List.flatMap_cons, ← linesText]
  by_cases hdelimiter : l.IsDelimiter
  · rw [dashes_of_isDelimiter hl hdelimiter hrest, Option.bind_some]
    by_cases hend : l.ending = []
    · rw [if_neg fun hopens => hopens.2 hend, hend, hrest hend]
      rfl
    · rw [if_pos ⟨hdelimiter, hend⟩, lineEnd_ending hl hend]
  · rw [if_neg fun hopens => hdelimiter hopens.1, Option.bind_eq_none_iff]
    exact fun u hu => (dashes_of_not_isDelimiter hl hdelimiter hrest hu).2

/-- A block is closed by a delimiter. -/
theorem closingDashes_linesText {l : Line} {rest : List Line} (h : AreLines (l :: rest)) :
    closingDashes (linesText (l :: rest)) =
      if l.IsDelimiter then some (linesText rest) else none := by
  obtain ⟨hl, hlast⟩ := h.head
  have hrest : l.ending = [] → linesText rest = [] := fun hend => by rw [hlast hend]; rfl
  rw [linesText, List.flatMap_cons, ← linesText, closingDashes]
  split
  · rename_i hdelimiter
    rw [dashes_of_isDelimiter hl hdelimiter hrest, Option.bind_some]
    by_cases hend : l.ending = []
    · simp [hend, hrest hend]
    · rw [if_neg (by simp [hend]), lineEnd_ending hl hend]
  · rename_i hdelimiter
    rw [Option.bind_eq_none_iff]
    intro u hu
    obtain ⟨hne, hnone⟩ := dashes_of_not_isDelimiter hl hdelimiter hrest hu
    rw [if_neg (by simpa using hne), hnone]

/-! ## Blocks -/

/-- Nothing closes a block within a line. -/
theorem quiet_content {l : Line} (hl : l.WellFormed) {rest : List Char}
    (hrest : l.ending = [] → rest = []) :
    Quiet closingLine l.content (l.ending ++ rest) := by
  rintro c back ⟨front, hsplit⟩
  rw [List.cons_append, closingLine, lineEnd_within hl hrest hsplit.symm]
  rfl

/-- At the end of a line, the next line closes the block or the search goes on. -/
theorem beforeClosingLine_ending {l : Line} (hl : l.WellFormed) (hend : l.ending ≠ [])
    (s : List Char) :
    beforeClosingLine (l.ending ++ s) =
      match closingDashes s with
      | some rest => some ([], rest)
      | none => (beforeClosingLine s).map fun (body, rest) => (l.ending ++ body, rest) := by
  have hclosing : closingLine ('\n' :: s) = closingDashes s := rfl
  have hfeed : beforeClosingLine ('\n' :: s) =
      match closingDashes s with
      | some rest => some ([], rest)
      | none => (beforeClosingLine s).map fun (body, rest) => ('\n' :: body, rest) := by
    rw [← hclosing]
    exact beforeClosingLine.eq_def _
  rcases hl.ending with h | h | h
  · exact absurd h hend
  · rw [h]
    exact hfeed
  · have hreturn : closingLine ('\r' :: '\n' :: s) = closingDashes s := rfl
    rw [h, List.cons_append, List.singleton_append, beforeClosingLine, hreturn]
    cases hdashes : closingDashes s with
    | some rest => rfl
    | none =>
        dsimp only
        rw [hfeed, hdashes]
        dsimp only
        rw [Option.map_map]
        rfl

/-- The lines before the first delimiter, and those behind it with the delimiter. -/
def splitAtDelimiter : List Line → Option (List Line × Line × List Line)
  | [] => none
  | l :: rest =>
      if l.IsDelimiter then some ([], l, rest)
      else (splitAtDelimiter rest).map fun (inner, closing, after) => (l :: inner, closing, after)

/-- From the first line of its body on, a block is closed by the first delimiter behind that
line. -/
theorem beforeClosingLine_linesText {l : Line} {rest : List Line} (h : AreLines (l :: rest)) :
    beforeClosingLine (linesText (l :: rest)) =
      (splitAtDelimiter rest).map fun (inner, _, after) =>
        (withoutLastEnd (l :: inner), linesText after) := by
  induction rest generalizing l with
  | nil =>
      obtain ⟨hl, -⟩ := h.head
      have htext : linesText [l] = l.content ++ (l.ending ++ []) := by
        simp [linesText, Line.text]
      rw [htext, beforeClosingLine_append (quiet_content hl fun _ => rfl)]
      by_cases hend : l.ending = []
      · rw [hend]
        rfl
      · rw [beforeClosingLine_ending hl hend]
        rfl
  | cons next rest ih =>
      obtain ⟨hl, hlast⟩ := h.head
      have hend : l.ending ≠ [] := fun hend => List.cons_ne_nil _ _ (hlast hend)
      have htext : linesText (l :: next :: rest) =
          l.content ++ (l.ending ++ linesText (next :: rest)) := by
        simp [linesText, Line.text]
      rw [htext, beforeClosingLine_append (quiet_content hl fun hnil => absurd hnil hend),
        beforeClosingLine_ending hl hend, closingDashes_linesText h.tail, splitAtDelimiter]
      by_cases hdelimiter : next.IsDelimiter
      · simp [hdelimiter, withoutLastEnd]
      · rw [if_neg hdelimiter, if_neg hdelimiter]
        dsimp only
        rw [ih h.tail, Option.map_map, Option.map_map, Option.map_map]
        congr 1
        funext found
        obtain ⟨inner, closing, after⟩ := found
        simp [withoutLastEnd, Line.text]

/-- **Frontmatter in terms of lines.**  A block begins with a delimiter that is ended, and is
closed by the first delimiter from the third line on. -/
theorem splitFrontmatter_eq (text : List Char) :
    splitFrontmatter text =
      match textLines text with
      | first :: second :: rest =>
          if first.Opens then
            (splitAtDelimiter rest).map fun (inner, _, after) =>
              (withoutLastEnd (second :: inner), linesText after)
          else none
      | _ => none := by
  have hlines := areLines_textLines text
  conv_lhs => rw [splitFrontmatter, ← linesText_textLines text]
  cases htext : textLines text with
  | nil => rfl
  | cons first rest =>
      rw [htext] at hlines
      rw [opening_linesText hlines]
      cases rest with
      | nil => split <;> rfl
      | cons second rest =>
          dsimp only
          by_cases hfirst : first.Opens
          · rw [if_pos hfirst, if_pos hfirst]
            exact beforeClosingLine_linesText hlines.tail
          · rw [if_neg hfirst, if_neg hfirst]
            rfl

theorem splitAtDelimiter_append {inner : List Line} (hinner : ∀ l ∈ inner, ¬ l.IsDelimiter)
    {closing : Line} (hclosing : closing.IsDelimiter) (after : List Line) :
    splitAtDelimiter (inner ++ closing :: after) = some (inner, closing, after) := by
  induction inner with
  | nil => rw [List.nil_append, splitAtDelimiter, if_pos hclosing]
  | cons l inner ih =>
      obtain ⟨hl, hrest⟩ := List.forall_mem_cons.mp hinner
      rw [List.cons_append, splitAtDelimiter, if_neg hl, ih hrest]
      rfl

theorem splitAtDelimiter_eq_none {ls : List Line} (h : ∀ l ∈ ls, ¬ l.IsDelimiter) :
    splitAtDelimiter ls = none := by
  induction ls with
  | nil => rfl
  | cons l ls ih =>
      obtain ⟨hl, hrest⟩ := List.forall_mem_cons.mp h
      rw [splitAtDelimiter, if_neg hl, ih hrest]
      rfl

/-! ## Blanking -/

theorem blankFrontmatter_of_none {text : List Char} (h : splitFrontmatter text = none) :
    blankFrontmatter text = text := by
  rw [blankFrontmatter, h]

/-- Of a block only the line feeds are left. -/
theorem blankFrontmatter_of_some {block rest body : List Char}
    (h : splitFrontmatter (block ++ rest) = some (body, rest)) :
    blankFrontmatter (block ++ rest) = block.filter (· == '\n') ++ rest := by
  have hblock : (block ++ rest).take ((block ++ rest).length - rest.length) = block := by
    rw [List.length_append, Nat.add_sub_cancel, List.take_left]
  rw [blankFrontmatter, h]
  dsimp only
  rw [hblock, List.filter_beq]

/-! ## Texts -/

section

variable {text : List Char} {first second closing : Line} {inner after : List Line}

/-- A block with a line in it: what that line is does not matter. -/
theorem frontmatter_of_block
    (hlines : textLines text = first :: second :: (inner ++ closing :: after))
    (hfirst : first.Opens) (hinner : ∀ l ∈ inner, ¬ l.IsDelimiter)
    (hclosing : closing.IsDelimiter) :
    frontmatter text = some (withoutLastEnd (second :: inner)) ∧
      blankFrontmatter text =
        (linesText (first :: second :: (inner ++ [closing]))).filter (· == '\n') ++
          linesText after := by
  have hsplit : splitFrontmatter text =
      some (withoutLastEnd (second :: inner), linesText after) := by
    rw [splitFrontmatter_eq, hlines]
    dsimp only
    rw [if_pos hfirst, splitAtDelimiter_append hinner hclosing]
    rfl
  have htext : text =
      linesText (first :: second :: (inner ++ [closing])) ++ linesText after := by
    rw [← linesText_textLines text, hlines]
    simp [linesText]
  refine ⟨by rw [frontmatter, hsplit]; rfl, ?_⟩
  rw [htext] at hsplit ⊢
  exact blankFrontmatter_of_some hsplit

theorem frontmatter_of_none (h : splitFrontmatter text = none) :
    frontmatter text = none ∧ blankFrontmatter text = text :=
  ⟨by rw [frontmatter, h]; rfl, blankFrontmatter_of_none h⟩

end

/-- **Frontmatter is delimited line by line**, if there is a line in it.  In a text that begins
with a delimiter, the lines up to the next delimiter, without the last line end, are the body, and
blanking leaves of the block just its line feeds; a text without two such delimiters has no
frontmatter.  The exception is a block without any line: its closing delimiter is taken for the
first line of the body. -/
theorem frontmatter_of_textLines (text : List Char) :
    (∀ first inner closing after, textLines text = first :: (inner ++ closing :: after) →
      first.Opens → (∀ l ∈ inner, ¬ l.IsDelimiter) → closing.IsDelimiter → inner ≠ [] →
        frontmatter text = some (withoutLastEnd inner) ∧
        blankFrontmatter text =
          (linesText (first :: (inner ++ [closing]))).filter (· == '\n') ++ linesText after) ∧
    ((∀ first rest, textLines text = first :: rest → first.Opens →
      ∀ l ∈ rest, ¬ l.IsDelimiter) → frontmatter text = none ∧ blankFrontmatter text = text) ∧
    (∀ first closing rest, textLines text = first :: closing :: rest → first.Opens →
      closing.IsDelimiter →
        frontmatter text = (splitAtDelimiter rest).map fun (inner, _, _) =>
          withoutLastEnd (closing :: inner)) := by
  refine ⟨?_, fun hnone => ?_, fun first closing rest hlines hfirst _ => ?_⟩
  · intro first inner closing after hlines hfirst hinner hclosing hne
    obtain ⟨second, inner, rfl⟩ := List.exists_cons_of_ne_nil hne
    exact frontmatter_of_block hlines hfirst (List.forall_mem_cons.mp hinner).2 hclosing
  · refine frontmatter_of_none ?_
    rw [splitFrontmatter_eq]
    split
    · rename_i first second rest hlines
      split
      · rename_i hfirst
        have hrest := (List.forall_mem_cons.mp (hnone first _ hlines hfirst)).2
        rw [splitAtDelimiter_eq_none hrest]
        rfl
      · rfl
    · rfl
  · rw [frontmatter, splitFrontmatter_eq, hlines]
    dsimp only
    rw [if_pos hfirst, Option.map_map]
    rfl

/-- A block whose lines end in two ways, with a line that is nearly a delimiter. -/
def nearlyDelimited : List Char :=
  "--- \r\na: 1\r\n----\n---\t\n<p>x</p>".toList

/-- A text that is opened and never closed. -/
def neverClosed : List Char :=
  "---\na: 1\n ---\n".toList

/-- A block without lines, and a delimiter further down. -/
def linelessBlock : List Char :=
  "---\n---\na\n---\n".toList

theorem frontmatter_of_textLines_nearly :
    (frontmatter nearlyDelimited = some "a: 1\r\n----".toList ∧
      blankFrontmatter nearlyDelimited = "\n\n\n\n<p>x</p>".toList) ∧
    (frontmatter neverClosed = none ∧ blankFrontmatter neverClosed = neverClosed) ∧
    frontmatter linelessBlock = some "---\na".toList := by
  refine ⟨?_, ?_, ?_⟩
  · exact (frontmatter_of_textLines nearlyDelimited).1
      ⟨"--- ".toList, ['\r', '\n']⟩
      [⟨"a: 1".toList, ['\r', '\n']⟩, ⟨"----".toList, ['\n']⟩]
      ⟨"---\t".toList, ['\n']⟩ [⟨"<p>x</p>".toList, []⟩]
      (by decide +kernel) (by decide +kernel) (by decide +kernel) (by decide +kernel)
      (by decide +kernel)
  · refine (frontmatter_of_textLines neverClosed).2.1 fun first rest hlines _ => ?_
    have hrest : rest = [⟨"a: 1".toList, ['\n']⟩, ⟨" ---".toList, ['\n']⟩] := by
      have htext : textLines neverClosed =
          [⟨"---".toList, ['\n']⟩, ⟨"a: 1".toList, ['\n']⟩, ⟨" ---".toList, ['\n']⟩] := by
        decide +kernel
      rw [htext] at hlines
      exact (List.cons.inj hlines).2.symm
    rw [hrest]
    decide +kernel
  · exact (frontmatter_of_textLines linelessBlock).2.2
      ⟨"---".toList, ['\n']⟩ ⟨"---".toList, ['\n']⟩
      [⟨"a".toList, ['\n']⟩, ⟨"---".toList, ['\n']⟩]
      (by decide +kernel) (by decide +kernel) (by decide +kernel)

end Folio.Source
