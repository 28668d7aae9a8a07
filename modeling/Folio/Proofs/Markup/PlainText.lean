import Folio.Proofs.Markup.Forest
import Folio.Proofs.Markup.Printed

/-!
# Text without markup

Text without markup is one inline run.  Its words are what the white space of HTML leaves,
so that a no-break space belongs to a word, and they are filled into lines (`layOut_plain`)
which have the words of the text (`wordsOf_plainLines`).

At the two ends of the output, however, a line is dropped if it is blank in the sense of
Unicode.  A line of no-break spaces is, although its words are content:
`prettify_plain` says which words are lost, and that no others are.
-/

namespace Folio.Markup

open Text

/-! ## The words of lines -/

/-- The words that stand on lines, divided by the white space of HTML. -/
def wordsOf (lines : List (List Char)) : List (List Char) :=
  lines.flatMap (wordsBy isLayoutBlank)

@[simp] theorem wordsOf_nil : wordsOf [] = [] := rfl

@[simp] theorem wordsOf_append (xs ys : List (List Char)) :
    wordsOf (xs ++ ys) = wordsOf xs ++ wordsOf ys :=
  List.flatMap_append

/-- Words with a space between each two are the words of their line. -/
theorem wordsBy_joinWith_words {words : List (List Char)}
    (hwords : ∀ w ∈ words, w ≠ [] ∧ ∀ c ∈ w, isLayoutBlank c = false) :
    wordsBy isLayoutBlank (joinWith [' '] words) = words := by
  rw [wordsBy_joinWith (by decide)]
  induction words with
  | nil => rfl
  | cons word rest ih =>
      obtain ⟨⟨hne, hword⟩, hrest⟩ := List.forall_mem_cons.mp hwords
      rw [List.flatMap_cons, wordsBy_word hne hword, ih hrest]
      rfl

/-- Lines filled with words have these words, and each line has some. -/
theorem Filled.wordsOf {room : Nat} {words lines : List (List Char)}
    (h : Filled room words lines)
    (hwords : ∀ w ∈ words, w ≠ [] ∧ ∀ c ∈ w, isLayoutBlank c = false) :
    wordsOf lines = words ∧ ∀ line ∈ lines, wordsBy isLayoutBlank line ≠ [] := by
  induction h with
  | nil => exact ⟨rfl, by simp⟩
  | @line words rest lines hne _ _ _ ih =>
      obtain ⟨hlines, hsome⟩ := ih fun w hw => hwords w (List.mem_append_right _ hw)
      have hline := wordsBy_joinWith_words fun w hw => hwords w (List.mem_append_left rest hw)
      constructor
      · rw [Markup.wordsOf, List.flatMap_cons, hline]
        exact congrArg (words ++ ·) hlines
      · refine List.forall_mem_cons.mpr ⟨?_, hsome⟩
        rwa [hline]

/-! ## The lines of a text -/

/-- The lines that a text without markup is laid out in. -/
def plainLines (width : Int) (text : List Char) : List (List Char) :=
  fillWords (room width 0) (wordsBy isLayoutBlank text)

/-- The lines have the words of the text, and each line has some. -/
theorem wordsOf_plainLines (width : Int) (text : List Char) :
    wordsOf (plainLines width text) = wordsBy isLayoutBlank text ∧
      ∀ line ∈ plainLines width text, wordsBy isLayoutBlank line ≠ [] :=
  (filled_fillWords _ _).wordsOf fun _ hw => of_mem_wordsBy hw

/-- Words join the inline run; all but the first follow white space. -/
theorem State.addWords_eq (s : State) {words : List (List Char)} (hne : words ≠ []) :
    s.addWords words = { s with
      atoms := s.atoms ++ atomsOf s.spacePending words
      spacePending := false
      blankAfter := false } := by
  have hrest : ∀ (rest : List (List Char)) (t : State), t.spacePending = false →
      t.blankAfter = false →
      rest.foldl (fun t w => { t with spacePending := true }.addAtom w) t =
        { t with atoms := t.atoms ++ rest.map fun w => ⟨w, true⟩ } := by
    intro rest
    induction rest with
    | nil => simp
    | cons word rest ih =>
        intro t hpending hafter
        rw [List.foldl_cons, ih _ rfl rfl]
        simp [addAtom, hpending, hafter]
  obtain ⟨word, rest, rfl⟩ := List.exists_cons_of_ne_nil hne
  rw [addWords, hrest rest _ rfl rfl]
  simp [addAtom, atomsOf]

/-- Outside of regions nothing is left to do at the end but to end the inline run. -/
theorem State.IsFlow.finish {s : State} (h : s.IsFlow) : s.finish = s.flush := by
  simp only [State.finish, h.1, h.2]

/-- The words of a text that flows from the start; the white space around them only changes
what is wanted before and after. -/
theorem State.exists_flow_start (width : Int) {text : List Char}
    (hwords : wordsBy isLayoutBlank text ≠ []) :
    ∃ wanted pending after, (start width).flow text = { start width with
      atoms := atomsOf false (wordsBy isLayoutBlank text)
      spacePending := pending
      blankWanted := wanted
      blankAfter := after } := by
  obtain ⟨wanted, hlead⟩ : ∃ wanted, (start width).leadIn (text.takeWhile isLayoutBlank) =
      { start width with blankWanted := wanted } := by
    unfold leadIn
    split
    · exact ⟨_, rfl⟩
    · exact ⟨_, rfl⟩
  rw [flow_of_words _ hwords, hlead, addWords_eq _ hwords]
  unfold trailOff
  split
  · exact ⟨_, _, _, rfl⟩
  · exact ⟨_, _, _, rfl⟩

/-- A text without markup is laid out as its words, filled into lines. -/
theorem layOut_plain (width : Int) (text : List Char) :
    layOut width (dataTokens text) = plainLines width text := by
  have hstart := State.isFlow_start width
  by_cases htext : text = []
  · rw [htext]
    rfl
  have htokens : dataTokens text = [.data text] := by simp [dataTokens, htext]
  rw [layOut, htokens, List.foldl_cons, List.foldl_nil, hstart.step_data, (hstart.flow text).finish]
  by_cases hwords : wordsBy isLayoutBlank text = []
  · -- nothing but white space, so that no atoms are collected
    have hblank : ∀ c ∈ text, isLayoutBlank c = true := by
      intro c hc
      by_contra hne
      exact wordsBy_ne_nil hc (by simpa using hne) hwords
    rw [State.flow_blank _ hblank, plainLines, hwords]
    rfl
  · have hne : ∀ w ∈ wordsBy isLayoutBlank text, w ≠ [] := fun w hw => (of_mem_wordsBy hw).1
    have hwrap := wrap_atomsOf width 0 false hne
    obtain ⟨wanted, pending, after, hflow⟩ := State.exists_flow_start width hwords
    obtain ⟨word, rest, hcons⟩ := List.exists_cons_of_ne_nil hwords
    rw [hcons] at hne hwrap hflow
    have hatoms : ∀ a ∈ atomsOf false (word :: rest), a.text ≠ [] := by
      simpa [atomsOf] using hne
    rw [hflow, State.flush_of_atoms (List.cons_ne_nil _ _) hatoms]
    dsimp only [State.start]
    rw [hwrap, plainLines, hcons]
    simp [State.gapLine, indent]

/-! ## What is dropped at the ends -/

/-- The words of a blank line are blank; it can have some, since Unicode knows more blanks
than HTML. -/
theorem isEmptyLine_of_mem_wordsBy {line word : List Char} (hline : isEmptyLine line = true)
    (hword : word ∈ wordsBy isLayoutBlank line) : isEmptyLine word = true := by
  have hink : ink line = [] := ink_eq_nil (List.all_eq_true.mp hline)
  rw [← ink_wordsBy isBlank_of_isLayoutBlank line, ink, List.filter_eq_nil_iff] at hink
  rw [isEmptyLine, List.all_eq_true]
  intro c hc
  simpa using hink c (List.mem_flatten.mpr ⟨word, hword, hc⟩)

/-- **What printing keeps of a text without markup.**  The text is laid out in lines that have
its words.  Of these lines, blank ones at both ends are dropped, in the sense of Unicode, and
the others are printed.  So words of Unicode white space can be lost and no others are, and the
words of the output are those of the text if and only if no line is dropped. -/
theorem prettify_plain (width : Int) {text : List Char} (htext : IsPlain text) :
    ∃ above kept below output, Trimmed (plainLines width text) above kept below ∧
      prettify width text = .ok output ∧ output = joinWith ['\n'] kept ++ ['\n'] ∧
      wordsBy isLayoutBlank text =
        wordsOf above ++ (wordsBy isLayoutBlank output ++ wordsOf below) ∧
      (∀ word ∈ wordsOf above ++ wordsOf below, isEmptyLine word = true) ∧
      (wordsBy isLayoutBlank output = wordsBy isLayoutBlank text ↔ above = [] ∧ below = []) := by
  obtain ⟨above, below, htrimmed⟩ := exists_trimmed (plainLines width text)
  generalize hkept : trimLines (plainLines width text) = kept at htrimmed
  obtain ⟨hwords, hsome⟩ := wordsOf_plainLines width text
  have hprettify : prettify width text = .ok (joinWith ['\n'] kept ++ ['\n']) := by
    have htokens := tokens_of_pass (pass_plain false text.length htext)
    rw [prettify, htokens, ← hkept, ← layOut_plain]
    rfl
  have hprinted : wordsBy isLayoutBlank (joinWith ['\n'] kept ++ ['\n']) = wordsOf kept := by
    have hnewline : isLayoutBlank '\n' = true := by decide
    rw [wordsBy_append_cons _ hnewline, wordsBy_joinWith hnewline, wordsBy_blank (by simp),
      List.append_nil]
    rfl
  have hdivided : wordsBy isLayoutBlank text = wordsOf above ++ (wordsOf kept ++ wordsOf below) := by
    rw [← hwords, htrimmed.eq, wordsOf_append, wordsOf_append]
  refine ⟨above, kept, below, _, htrimmed, hprettify, rfl, ?_, ?_, ?_⟩
  · rw [hprinted, hdivided]
  · intro word hword
    rw [← wordsOf_append, wordsOf, List.mem_flatMap] at hword
    obtain ⟨line, hline, hword⟩ := hword
    exact isEmptyLine_of_mem_wordsBy (htrimmed.blank line hline) hword
  · rw [hprinted, hdivided]
    constructor
    · intro hsame
      have hlength := congrArg List.length hsame
      simp only [List.length_append] at hlength
      -- a line that is dropped has words, so that words are lost with it
      have hnone : ∀ part, part ⊆ plainLines width text → (wordsOf part).length = 0 → part = [] := by
        intro part hpart hzero
        rw [List.length_eq_zero_iff, wordsOf, List.flatMap_eq_nil_iff] at hzero
        rw [List.eq_nil_iff_forall_not_mem]
        intro line hline
        exact hsome line (hpart hline) (hzero line hline)
      constructor
      · exact hnone above (by rw [htrimmed.eq]; simp) (by omega)
      · exact hnone below (by rw [htrimmed.eq]; simp) (by omega)
    · rintro ⟨rfl, rfl⟩
      simp

/-- A no-break space, two words, and a no-break space that belongs to the second word. -/
def spacedWords : List Char := "\u00a0 one two\u00a0".toList

theorem prettify_plain_spacedWords :
    IsPlain spacedWords ∧ ∃ above kept below output,
      Trimmed (plainLines 20 spacedWords) above kept below ∧
      prettify 20 spacedWords = .ok output ∧ output = joinWith ['\n'] kept ++ ['\n'] ∧
      wordsBy isLayoutBlank spacedWords =
        wordsOf above ++ (wordsBy isLayoutBlank output ++ wordsOf below) ∧
      (∀ word ∈ wordsOf above ++ wordsOf below, isEmptyLine word = true) ∧
      (wordsBy isLayoutBlank output = wordsBy isLayoutBlank spacedWords ↔
        above = [] ∧ below = []) :=
  have hplain : IsPlain spacedWords := by simp [IsPlain, spacedWords]
  ⟨hplain, prettify_plain 20 hplain⟩

/-- A no-break space that stands alone is a word, and it is lost. -/
example : wordsBy isLayoutBlank ['\u00a0'] = [['\u00a0']] ∧ prettify 120 ['\u00a0'] = .ok ['\n'] := by
  decide +kernel

end Folio.Markup
