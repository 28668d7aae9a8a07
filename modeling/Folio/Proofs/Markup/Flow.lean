import Folio.Markup.Formatter
import Folio.Markup.Prettify
import Folio.Proofs.Text.Cutting
import Mathlib.Data.List.TakeWhile

/-!
# Text that flows

`State.flow` takes a whole text in at once.  Here it is taken apart: a text is
laid out word by word and gap by gap, a gap being a whole run of white space.
The two laws are `flow_append_word` and `flow_append_blank`; a gap may not be
divided further, since two line ends in one gap make a blank line and one line end
in each of two gaps would not.

What has flowed in is written by `emit` and `flush`, which have exact forms: which lines
they add, and what they leave of the rest of the state.  `flush_of_atoms` is the main one:
an inline run is written as the lines that it is wrapped in, each indented, after at most
one empty line.
-/

namespace Folio.Markup

open Text

/-- A run of white space, as it stands between words. -/
def IsGap (text : List Char) : Prop :=
  text ≠ [] ∧ ∀ c ∈ text, isLayoutBlank c = true

namespace State

/-! ## The parts of a text -/

/-- The state after the white space in front of the first word of a text. -/
def leadIn (s : State) (lead : List Char) : State :=
  if lead.isEmpty then s
  else if !s.atoms.isEmpty then { s with spacePending := true }
  else { s with blankWanted := s.blankWanted || hasBlankLine lead }

/-- The state after the white space behind the last word of a text. -/
def trailOff (s : State) (trail : List Char) : State :=
  if trail.isEmpty then s
  else { s with spacePending := true, blankAfter := s.blankAfter || hasBlankLine trail }

theorem flow_of_words (s : State) {text : List Char} (h : wordsBy isLayoutBlank text ≠ []) :
    s.flow text = ((s.leadIn (text.takeWhile isLayoutBlank)).addWords
      (wordsBy isLayoutBlank text)).trailOff (text.reverse.takeWhile isLayoutBlank) := by
  have hempty : (wordsBy isLayoutBlank text).isEmpty = false := by simpa using h
  rw [flow]
  simp only [hempty, Bool.false_eq_true, if_false]
  rfl

theorem flow_blank (s : State) {gap : List Char} (hgap : ∀ c ∈ gap, isLayoutBlank c = true) :
    s.flow gap =
      if !s.atoms.isEmpty then
        { s with spacePending := true, blankAfter := s.blankAfter || hasBlankLine gap }
      else { s with blankWanted := s.blankWanted || hasBlankLine gap } := by
  rw [flow]
  simp only [wordsBy_blank hgap, List.isEmpty_nil, if_true]

theorem flow_word (s : State) {word : List Char} (hne : word ≠ [])
    (hword : ∀ c ∈ word, isLayoutBlank c = false) : s.flow word = s.addAtom word := by
  have hwords := wordsBy_word hne hword
  have hlead : word.takeWhile isLayoutBlank = [] := by
    rw [List.takeWhile_eq_nil_iff]
    intro hpos
    simpa using hword _ (List.getElem_mem hpos)
  have htrail : word.reverse.takeWhile isLayoutBlank = [] := by
    rw [List.takeWhile_eq_nil_iff]
    intro hpos
    simpa using hword _ (List.mem_reverse.mp (List.getElem_mem hpos))
  rw [flow_of_words s (by simp [hwords]), hwords, hlead, htrail]
  rfl

/-! ## Words -/

theorem addWords_append (s : State) {words : List (List Char)} (hne : words ≠ [])
    (word : List Char) :
    s.addWords (words ++ [word]) = { s.addWords words with spacePending := true }.addAtom word := by
  cases words with
  | nil => exact absurd rfl hne
  | cons first rest => simp [addWords, List.foldl_append]

theorem atoms_addWords_ne_nil (s : State) {words : List (List Char)} (hne : words ≠ []) :
    (s.addWords words).atoms ≠ [] := by
  rcases List.eq_nil_or_concat words with rfl | ⟨front, word, rfl⟩
  · exact absurd rfl hne
  · cases front with
    | nil => simp [addWords, addAtom]
    | cons first rest =>
        rw [List.concat_eq_append, addWords_append s (List.cons_ne_nil _ _)]
        simp [addAtom]

/-! ## Texts put together -/

/-- A gap after a text that ends in a word. -/
theorem flow_append_blank (s : State) {front gap : List Char} {c : Char}
    (hc : isLayoutBlank c = false) (hgap : IsGap gap) :
    s.flow (front ++ [c] ++ gap) = (s.flow (front ++ [c])).flow gap := by
  obtain ⟨hne, hblank⟩ := hgap
  have hwords : wordsBy isLayoutBlank (front ++ [c] ++ gap) =
      wordsBy isLayoutBlank (front ++ [c]) := by
    obtain ⟨d, gap, rfl⟩ := List.exists_cons_of_ne_nil hne
    rw [wordsBy_append_cons _ (hblank d (List.mem_cons_self ..)),
      wordsBy_blank fun e he => hblank e (List.mem_cons_of_mem _ he), List.append_nil]
  have hsome : wordsBy isLayoutBlank (front ++ [c]) ≠ [] := wordsBy_ne_nil (by simp) hc
  have hlead : (front ++ [c] ++ gap).takeWhile isLayoutBlank =
      (front ++ [c]).takeWhile isLayoutBlank := by
    rw [List.append_assoc, List.singleton_append, takeWhile_append_cons_of_neg front hc gap,
      takeWhile_append_cons_of_neg front hc []]
  have htrail : (front ++ [c]).reverse.takeWhile isLayoutBlank = [] := by
    simp [hc]
  have htrail' : (front ++ [c] ++ gap).reverse.takeWhile isLayoutBlank = gap.reverse := by
    have hreverse : ∀ e ∈ gap.reverse, isLayoutBlank e = true := fun e he =>
      hblank e (List.mem_reverse.mp he)
    rw [List.reverse_append, List.takeWhile_append_of_pos hreverse, htrail, List.append_nil]
  rw [flow_of_words s (hwords ▸ hsome), flow_of_words s hsome, hwords, hlead, htrail, htrail',
    flow_blank _ hblank]
  have hatoms := atoms_addWords_ne_nil (s.leadIn ((front ++ [c]).takeWhile isLayoutBlank)) hsome
  simp [trailOff, hne, hatoms, hasBlankLine]

/-- A word after a text that ends in white space. -/
theorem flow_append_word (s : State) {front word : List Char} {c : Char}
    (hc : isLayoutBlank c = true) (hne : word ≠ [])
    (hword : ∀ d ∈ word, isLayoutBlank d = false) :
    s.flow (front ++ [c] ++ word) = (s.flow (front ++ [c])).flow word := by
  obtain ⟨d, rest, hcons⟩ := List.exists_cons_of_ne_nil hne
  have hd : isLayoutBlank d = false := hword d (by simp [hcons])
  have hwords : wordsBy isLayoutBlank (front ++ [c] ++ word) =
      wordsBy isLayoutBlank (front ++ [c]) ++ [word] := by
    have hfront := wordsBy_append_cons front hc []
    rw [List.append_assoc, List.singleton_append, wordsBy_append_cons front hc,
      wordsBy_word hne hword, hfront]
    simp [wordsBy, splitBy]
  have hlead : (front ++ [c] ++ word).takeWhile isLayoutBlank =
      (front ++ [c]).takeWhile isLayoutBlank := by
    rw [hcons, takeWhile_append_cons_of_neg (front ++ [c]) hd rest]
  have htrail : (front ++ [c] ++ word).reverse.takeWhile isLayoutBlank = [] := by
    rw [List.takeWhile_eq_nil_iff, List.reverse_append]
    intro hpos
    have hlast : (word.reverse ++ (front ++ [c]).reverse)[0] ∈ word := by
      rw [List.getElem_append_left (by simpa [List.length_pos_iff] using hne)]
      exact List.mem_reverse.mp (List.getElem_mem _)
    simpa using hword _ hlast
  rw [flow_of_words s (by rw [hwords]; simp), hwords, hlead, htrail, flow_word _ hne hword]
  by_cases hblank : ∀ e ∈ front ++ [c], isLayoutBlank e = true
  · -- the text before the word is one gap
    have hall : (front ++ [c]).takeWhile isLayoutBlank = front ++ [c] :=
      List.takeWhile_eq_self_iff.mpr hblank
    rw [wordsBy_blank hblank, hall, flow_blank s hblank]
    cases hatoms : s.atoms <;>
      simp [leadIn, trailOff, addWords, addAtom, hatoms]
  · obtain ⟨e, hmem, he⟩ : ∃ e ∈ front ++ [c], isLayoutBlank e = false := by
      simpa using hblank
    have hsome : wordsBy isLayoutBlank (front ++ [c]) ≠ [] := wordsBy_ne_nil hmem he
    have hgap : ((front ++ [c]).reverse.takeWhile isLayoutBlank).isEmpty = false := by simp [hc]
    rw [addWords_append _ hsome, flow_of_words s hsome]
    simp only [trailOff, hgap, addAtom, List.isEmpty_nil, if_true, Bool.false_eq_true, if_false]

end State

/-! ## Filling -/

theorem fill_ne_nil (room : Nat) {current : List Char} (hcurrent : current ≠ [])
    (atoms : List Atom) : fill room current atoms ≠ [] := by
  induction atoms generalizing current with
  | nil => simp [fill, hcurrent]
  | cons atom rest ih =>
      rw [fill, if_neg (by simpa using hcurrent)]
      split
      · exact ih (by simp [hcurrent])
      · split
        · exact List.cons_ne_nil _ _
        · exact ih (by simp)

theorem wrap_ne_nil (width : Int) (depth : Nat) {atoms : List Atom} (hne : atoms ≠ [])
    (htext : ∀ a ∈ atoms, a.text ≠ []) : wrap width depth atoms ≠ [] := by
  obtain ⟨atom, rest, rfl⟩ := List.exists_cons_of_ne_nil hne
  rw [wrap, fill, if_pos List.isEmpty_nil]
  exact fill_ne_nil _ (htext atom (List.mem_cons_self ..)) rest

namespace State

/-! ## Writing lines -/

/-- The empty line that comes before the next line, if there is to be one. -/
def gapLine (s : State) : List (List Char) :=
  match s.lines.getLast? with
  | some last => if s.blankWanted && !last.isEmpty then [[]] else []
  | none => []

theorem emit_eq (s : State) (text : List Char) :
    s.emit text = { s with
      lines := s.lines ++ s.gapLine ++ [indent s.depth ++ text], blankWanted := false } := rfl

theorem gapLine_of_not_wanted {s : State} (h : s.blankWanted = false) : s.gapLine = [] := by
  unfold gapLine
  split <;> simp [h]

theorem foldl_emit_calm {s : State} (h : s.blankWanted = false) (ls : List (List Char)) :
    ls.foldl emit s = { s with lines := s.lines ++ ls.map (indent s.depth ++ ·) } := by
  induction ls generalizing s with
  | nil => simp
  | cons line rest ih =>
      rw [List.foldl_cons, emit_eq, gapLine_of_not_wanted h, ih rfl]
      simp [h]

theorem foldl_emit {ls : List (List Char)} (hne : ls ≠ []) (s : State) :
    ls.foldl emit s = { s with
      lines := s.lines ++ s.gapLine ++ ls.map (indent s.depth ++ ·), blankWanted := false } := by
  obtain ⟨first, rest, rfl⟩ := List.exists_cons_of_ne_nil hne
  rw [List.foldl_cons, emit_eq, foldl_emit_calm rfl]
  simp

/-! ## Ending a run -/

theorem flush_of_no_atoms {s : State} (h : s.atoms = []) :
    s.flush = { s with spacePending := false, blankAfter := false } := by
  simp [flush, h]

theorem flush_of_atoms {s : State} (hne : s.atoms ≠ []) (htext : ∀ a ∈ s.atoms, a.text ≠ []) :
    s.flush = { s with
      lines := s.lines ++ s.gapLine ++ (wrap s.width s.depth s.atoms).map (indent s.depth ++ ·),
      atoms := [], spacePending := false, blankWanted := s.blankAfter, blankAfter := false } := by
  have hfold := foldl_emit (wrap_ne_nil s.width s.depth hne htext) s
  rw [flush, if_neg (by simpa using hne)]
  simp only [hfold, Bool.false_or]

theorem flush_flush (s : State) : s.flush.flush = s.flush := by
  have hflush : ∃ t : State,
      s.flush = { t with atoms := [], spacePending := false, blankAfter := false } := by
    unfold flush
    split
    · rename_i h
      exact ⟨s, by rw [← List.isEmpty_iff.mp h]⟩
    · let t := (wrap s.width s.depth s.atoms).foldl emit s
      exact ⟨{ t with blankWanted := t.blankWanted || s.blankAfter }, rfl⟩
  obtain ⟨t, ht⟩ := hflush
  rw [ht, flush_of_no_atoms rfl]

end State

/-! ## Blank lines at the ends -/

theorem isEmptyLine_append (s t : List Char) :
    isEmptyLine (s ++ t) = (isEmptyLine s && isEmptyLine t) :=
  List.all_append

theorem not_blank_of_mem {c : Char} {line : List Char} (hmem : c ∈ line)
    (hc : isBlank c = false) : isEmptyLine line = false := by
  rw [isEmptyLine, List.all_eq_false]
  exact ⟨c, hmem, by simp [hc]⟩

/-- Lines that neither begin nor end with a blank one are printed as they are. -/
theorem trimLines_of_ends {lines : List (List Char)}
    (hhead : ∀ line ∈ lines.head?, isEmptyLine line = false)
    (hlast : ∀ line ∈ lines.getLast?, isEmptyLine line = false) : trimLines lines = lines := by
  have hdrop : ∀ ls : List (List Char), (∀ line ∈ ls.head?, isEmptyLine line = false) →
      ls.dropWhile isEmptyLine = ls := by
    intro ls hls
    cases ls with
    | nil => rfl
    | cons line rest => exact List.dropWhile_cons_of_neg (by simp [hls line rfl])
  rw [trimLines, hdrop lines.reverse (by simpa using hlast), List.reverse_reverse,
    hdrop lines hhead]

end Folio.Markup
