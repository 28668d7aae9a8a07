import Folio.Markup.Formatter
import Folio.Proofs.Text.Ink

/-!
# What the formatter writes

One lemma for each function by which a state writes or collects: which fields it
changes, and what the change does to the ink of the lines or of the atoms.  No
other proof about the formatter's content opens these functions.
-/

namespace Folio.Markup

open Text

/-! ## Script bodies

A line of a body loses the common indentation and the blanks at its end. -/

theorem ink_indent (depth : Nat) : ink (indent depth) = [] :=
  ink_eq_nil fun c hc => by
    rw [indent, List.mem_replicate] at hc
    rw [hc.2]
    decide

theorem commonStart_isPrefix_left (s t : List Char) : commonStart s t <+: s := by
  fun_induction commonStart s t with
  | case1 c s t ih => exact List.cons_prefix_cons.mpr ⟨rfl, ih⟩
  | case2 => exact List.nil_prefix
  | case3 => exact List.nil_prefix

theorem commonStart_isPrefix_right (s t : List Char) : commonStart s t <+: t := by
  fun_induction commonStart s t with
  | case1 c s t ih => exact List.cons_prefix_cons.mpr ⟨rfl, ih⟩
  | case2 => exact List.nil_prefix
  | case3 => exact List.nil_prefix

theorem foldl_commonStart_spec (others : List (List Char)) (first : List Char) :
    others.foldl commonStart first <+: first ∧
      ∀ other ∈ others, others.foldl commonStart first <+: other := by
  induction others generalizing first with
  | nil => exact ⟨List.prefix_rfl, by simp⟩
  | cons next rest ih =>
      obtain ⟨hfirst, hrest⟩ := ih (commonStart first next)
      refine ⟨hfirst.trans (commonStart_isPrefix_left _ _), ?_⟩
      intro other hother
      rcases List.mem_cons.mp hother with rfl | hother
      · exact hfirst.trans (commonStart_isPrefix_right _ _)
      · exact hrest other hother

/-- Every line that is not blank begins with the common indentation. -/
theorem commonIndent_isPrefix_line {ls : List (List Char)} {line : List Char} (hline : line ∈ ls)
    (hblank : isBlankLine line = false) : commonIndent ls <+: line.takeWhile isSpaceOrTab := by
  have hmem : line.takeWhile isSpaceOrTab ∈
      (ls.filter fun line => !isBlankLine line).map (·.takeWhile isSpaceOrTab) :=
    List.mem_map.mpr ⟨line, List.mem_filter.mpr ⟨hline, by simp [hblank]⟩, rfl⟩
  unfold commonIndent
  split
  · exact List.nil_prefix
  · rename_i first others heq
    rw [heq] at hmem
    obtain ⟨hfirst, hothers⟩ := foldl_commonStart_spec others first
    rcases List.mem_cons.mp hmem with hmem | hmem
    · rw [hmem]
      exact hfirst
    · exact hothers _ hmem

theorem ink_dedent (ls : List (List Char)) : ink (dedent ls).flatten = ink ls.flatten := by
  refine ink_flatten_map fun line hline => ?_
  split
  · rename_i hblank
    rw [ink_nil, ink_eq_nil fun c hc => isBlank_of_isSpaceOrTab (List.all_eq_true.mp hblank c hc)]
  · rename_i hblank
    obtain ⟨rest, hrest⟩ :=
      (commonIndent_isPrefix_line hline (by simpa using hblank)).trans (List.takeWhile_prefix _)
    have hmargin : ink (commonIndent ls) = [] := ink_eq_nil fun c hc =>
      isBlank_of_isSpaceOrTab (List.mem_takeWhile_imp
        ((commonIndent_isPrefix_line hline (by simpa using hblank)).subset hc))
    calc ink (line.drop (commonIndent ls).length)
        = ink rest := by rw [← hrest, List.drop_left]
      _ = ink (commonIndent ls ++ rest) := by rw [ink_append, hmargin, List.nil_append]
      _ = ink line := by rw [hrest]

theorem ink_newline : ink ['\n'] = [] := by decide

theorem ink_scriptLines (depth : Nat) (body : List Char) :
    ink (State.scriptLines depth body).flatten = ink body := by
  have hline : ∀ line : List Char,
      ink (if (trimRight isBlank line).isEmpty then []
        else indent (depth + 1) ++ trimRight isBlank line) = ink line := by
    intro line
    have htrim : ink (trimRight isBlank line) = ink line := ink_trimRight id line
    split
    · rename_i hempty
      rw [List.isEmpty_iff.mp hempty] at htrim
      exact htrim
    · rw [ink_append, ink_indent, List.nil_append, htrim]
  calc ink (State.scriptLines depth body).flatten
      = ink (splitAt '\n' (trimBy (· == '\n')
          (joinWith ['\n'] (dedent (splitAt '\n' body))))).flatten :=
        ink_flatten_map fun line _ => hline line
    _ = ink (joinWith ['\n'] (dedent (splitAt '\n' body))) := by
        rw [ink_splitAt_newline, ink_trimBy isBlank_of_beq_newline]
    _ = ink body := by
        rw [ink_joinWith ink_newline, ink_dedent, ink_splitAt_newline]

/-! ## Writing lines -/

theorem ink_fill (room : Nat) (current : List Char) (atoms : List Atom) :
    ink (fill room current atoms).flatten =
      ink current ++ ink (atoms.map Atom.text).flatten := by
  induction atoms generalizing current with
  | nil =>
      unfold fill
      split
      · rename_i hempty
        simp [List.isEmpty_iff.mp hempty]
      · simp
  | cons atom rest ih =>
      unfold fill
      split
      · rename_i hempty
        simp [List.isEmpty_iff.mp hempty, ih]
      · split
        · simp [ih]
        · split
          · simp [ih]
          · have hspace : ink (' ' :: atom.text) = ink atom.text := by
              rw [ink_cons, if_pos (by decide)]
            simp [ih, hspace]

namespace State

/-- `emit` appends its text to the lines, and touches nothing else. -/
theorem emit_spec (s : State) (text : List Char) :
    ∃ lines, s.emit text = { s with lines := lines, blankWanted := false } ∧
      ink lines.flatten = ink s.lines.flatten ++ ink text := by
  refine ⟨_, rfl, ?_⟩
  rw [ink_flatten_append, ink_flatten_append]
  have hline : ink [indent s.depth ++ text].flatten = ink text := by
    rw [List.flatten_singleton, ink_append, ink_indent, List.nil_append]
  rw [hline]
  cases s.lines.getLast? with
  | none => simp
  | some last => dsimp only; split <;> simp

theorem emitLines_spec (s : State) (text : List Char) :
    ∃ lines, s.emitLines text = { s with lines := lines, blankWanted := false } ∧
      ink lines.flatten = ink s.lines.flatten ++ ink text := by
  have htext := ink_splitAt_newline text
  unfold emitLines
  split
  · rename_i hsplit
    rw [hsplit] at htext
    rw [← htext]
    exact s.emit_spec []
  · rename_i first rest hsplit
    rw [hsplit, List.flatten_cons, ink_append] at htext
    obtain ⟨lines, hemit, hink⟩ := s.emit_spec first
    refine ⟨lines ++ rest, by simp only [hemit], ?_⟩
    rw [ink_flatten_append, hink, List.append_assoc, htext]

theorem foldl_emit_spec (ls : List (List Char)) (s : State) :
    ∃ lines wanted, ls.foldl emit s = { s with lines := lines, blankWanted := wanted } ∧
      ink lines.flatten = ink s.lines.flatten ++ ink ls.flatten := by
  induction ls generalizing s with
  | nil => exact ⟨s.lines, s.blankWanted, rfl, by simp⟩
  | cons line rest ih =>
      obtain ⟨first, hemit, hfirst⟩ := s.emit_spec line
      obtain ⟨lines, wanted, hrest, hlines⟩ := ih (s.emit line)
      refine ⟨lines, wanted, ?_, ?_⟩
      · rw [List.foldl_cons, hrest, hemit]
      · rw [hlines, hemit, hfirst, List.flatten_cons, ink_append, List.append_assoc]

/-- `flush` writes the atoms, and leaves none. -/
theorem flush_spec (s : State) :
    ∃ lines wanted,
      s.flush = { s with
        lines := lines, atoms := [], spacePending := false, blankWanted := wanted,
        blankAfter := false } ∧
      ink lines.flatten =
        ink s.lines.flatten ++ ink (s.atoms.map Atom.text).flatten := by
  unfold flush
  split
  · rename_i hempty
    have hatoms : s.atoms = [] := List.isEmpty_iff.mp hempty
    exact ⟨s.lines, s.blankWanted, by rw [← hatoms], by simp [hatoms]⟩
  · obtain ⟨lines, wanted, hfold, hink⟩ :=
      foldl_emit_spec (wrap s.width s.depth s.atoms) s
    refine ⟨lines, wanted || s.blankAfter, by simp only [hfold], ?_⟩
    rw [hink, wrap, ink_fill, ink_nil, List.nil_append]

/-- A state after its inline run is ended and a block is written. -/
theorem flush_emit_spec (s : State) (text : List Char) :
    ∃ lines,
      s.flush.emit text = { s with
        lines := lines, atoms := [], spacePending := false, blankWanted := false,
        blankAfter := false } ∧
      ink lines.flatten =
        ink s.lines.flatten ++ ink (s.atoms.map Atom.text).flatten ++
          ink text := by
  obtain ⟨first, wanted, hflush, hfirst⟩ := s.flush_spec
  obtain ⟨lines, hemit, hlines⟩ := s.flush.emit_spec text
  refine ⟨lines, by rw [hemit, hflush], ?_⟩
  rw [hlines, hflush, hfirst]

theorem emitScript_spec (s : State) (script : Script) :
    ∃ lines, s.emitScript script =
        { s with lines := lines, blankWanted := false, script := none } ∧
      ink lines.flatten = ink s.lines.flatten ++
        ink (script.source ++ script.body.flatten) ++ ink (closing script.element) := by
  unfold emitScript
  dsimp only
  split
  · rename_i hbody
    have hink : ink script.body.flatten = [] := by
      rw [← ink_trimBy isBlank_of_isLayoutBlank, List.isEmpty_iff.mp hbody, ink_nil]
    obtain ⟨lines, hemit, hlines⟩ :=
      { s with script := none }.emit_spec (script.source ++ closing script.element)
    refine ⟨lines, hemit, ?_⟩
    rw [hlines, ink_append, ink_append, hink]
    simp
  · obtain ⟨first, hemit, hfirst⟩ := { s with script := none }.emit_spec script.source
    rw [hemit]
    dsimp only
    obtain ⟨lines, hlast, hlines⟩ :=
      ({ s with
        lines := first ++ scriptLines s.depth script.body.flatten
        blankWanted := false
        script := none } : State).emit_spec (closing script.element)
    refine ⟨lines, hlast, ?_⟩
    rw [hlines, ink_flatten_append, ink_scriptLines, hfirst]
    simp

theorem closeElement_spec (s : State) (name : String) :
    ∃ stack depth, s.closeElement name = { s with stack := stack, depth := depth } := by
  unfold closeElement
  split
  · exact ⟨_, _, rfl⟩
  · exact ⟨s.stack, s.depth, rfl⟩

/-! ## Flowing text -/

/-- Words become atoms. -/
theorem addWords_spec (s : State) (words : List (List Char)) :
    ∃ more spaced after,
      s.addWords words =
        { s with atoms := s.atoms ++ more, spacePending := spaced, blankAfter := after } ∧
      more.map Atom.text = words := by
  have hrest : ∀ (rest : List (List Char)) (t : State), ∃ more spaced after,
      rest.foldl (fun t w => { t with spacePending := true }.addAtom w) t =
        { t with atoms := t.atoms ++ more, spacePending := spaced, blankAfter := after } ∧
      more.map Atom.text = rest := by
    intro rest
    induction rest with
    | nil => exact fun t => ⟨[], t.spacePending, t.blankAfter, by simp, rfl⟩
    | cons word rest ih =>
        intro t
        obtain ⟨more, spaced, after, hfold, hmore⟩ :=
          ih ({ t with spacePending := true }.addAtom word)
        exact ⟨⟨word, true⟩ :: more, spaced, after, by rw [List.foldl_cons, hfold]; simp [addAtom],
          by rw [List.map_cons, hmore]⟩
  cases words with
  | nil => exact ⟨[], s.spacePending, s.blankAfter, by simp [addWords], rfl⟩
  | cons word rest =>
      obtain ⟨more, spaced, after, hfold, hmore⟩ := hrest rest (s.addAtom word)
      exact ⟨⟨word, s.spacePending⟩ :: more, spaced, after,
        by rw [addWords, hfold]; simp [addAtom], by rw [List.map_cons, hmore]⟩

/-- White space in front of words only changes what is wanted before them. -/
theorem lead_spec (s : State) (lead : List Char) :
    ∃ spaced wanted,
      (if lead.isEmpty then s
        else if !s.atoms.isEmpty then { s with spacePending := true }
        else { s with blankWanted := s.blankWanted || hasBlankLine lead }) =
        { s with spacePending := spaced, blankWanted := wanted } := by
  split
  · exact ⟨s.spacePending, s.blankWanted, rfl⟩
  · split
    · exact ⟨true, s.blankWanted, rfl⟩
    · exact ⟨s.spacePending, _, rfl⟩

/-- Flowing text gives its words to the inline run; all else that changes is
whether a space or a blank line is wanted. -/
theorem flow_spec (s : State) (text : List Char) :
    ∃ more spaced wanted after,
      s.flow text = { s with
        atoms := s.atoms ++ more, spacePending := spaced, blankWanted := wanted,
        blankAfter := after } ∧
      more.map Atom.text = wordsBy isLayoutBlank text := by
  unfold flow
  dsimp only
  split
  · rename_i hempty
    rw [List.isEmpty_iff.mp hempty]
    split
    · exact ⟨[], _, _, _, by rw [List.append_nil], rfl⟩
    · exact ⟨[], _, _, _, by rw [List.append_nil], rfl⟩
  · obtain ⟨spaced, wanted, hlead⟩ := s.lead_spec (text.takeWhile isLayoutBlank)
    rw [hlead]
    obtain ⟨more, spaced', after, hadd, hmore⟩ :=
      { s with spacePending := spaced, blankWanted := wanted }.addWords_spec
        (wordsBy isLayoutBlank text)
    rw [hadd]
    split
    · exact ⟨more, _, _, _, rfl, hmore⟩
    · exact ⟨more, _, _, _, rfl, hmore⟩

end State

end Folio.Markup
