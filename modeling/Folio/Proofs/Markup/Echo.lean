import Folio.Proofs.Markup.Printed

/-!
# The echo of a layout

The formatter is followed over the items of a source, and with it a second list of
items, the *echo*: its text is the text of the lines written so far, and laying it out
writes the same lines again.  `Echo` says so of a state between two runs; `Pending` adds
the inline run that the state has collected.  The end of a run appends its items as they
are spread over lines (`Pending.exists_echo_flush`), a block appends itself as it is
printed (`Echo.exists_rests_layBlock`).
-/

namespace Folio.Markup

open Text

/-! ## The echo -/

/-- The state without a wish for a blank line. -/
def State.calm (s : State) : State :=
  { s with blankWanted := false }

/-- The state without a wish for a blank line in front of the first line. -/
def State.begun (s : State) : State :=
  { s with blankWanted := if s.lines = [] then false else s.blankWanted }

theorem State.gapLine_begun (s : State) : s.begun.gapLine = s.gapLine := by
  by_cases hnil : s.lines = []
  · simp [gapLine, begun, hnil]
  · simp [gapLine, begun, hnil]

theorem State.gapLine_of_no_lines {s : State} (h : s.lines = []) : s.gapLine = [] := by
  simp [gapLine, h]

theorem State.closeElement_begun (s : State) (name : String) :
    s.begun.closeElement name = (s.closeElement name).begun := by
  unfold closeElement
  change (if s.stack.contains name then _ else _) = _
  split <;> rfl

/-- White space after a run is remembered until the run is ended. -/
theorem State.flush_flow_gap {s : State} (hatoms : ∀ a ∈ s.atoms, a.text ≠ []) {gap : List Char}
    (hgap : IsGap gap) :
    (s.flow gap).flush =
      { s.flush with blankWanted := s.flush.blankWanted || State.hasBlankLine gap } := by
  rw [s.flow_blank hgap.2]
  by_cases hne : s.atoms = []
  · rw [if_neg (by simp [hne]), State.flush_of_no_atoms hne]
    exact State.flush_of_no_atoms (by exact hne)
  · rw [if_pos (by simpa using hne), State.flush_of_atoms hne hatoms]
    exact State.flush_of_atoms (by exact hne) (by exact hatoms)

/-- The state after items. -/
def run (width : Int) (items : List Item) : State :=
  (items.map Item.piece).foldl Piece.lay (State.start width)

theorem run_append (width : Int) (xs ys : List Item) :
    run width (xs ++ ys) = (ys.map Item.piece).foldl Piece.lay (run width xs) := by
  rw [run, List.map_append, List.foldl_append]
  rfl

theorem isFlow_run (width : Int) {items : List Item} (h : ∀ i ∈ items, i.WellFormed) :
    (run width items).IsFlow := by
  refine isFlow_foldl_lay ?_ (State.isFlow_start width)
  intro p hp
  obtain ⟨i, hi, rfl⟩ := List.mem_map.mp hp
  exact Item.piece_wellFormed (h i hi)

/-- The items `us` are an echo of the lines of `s`: their text is the text of the
lines, and laying them out writes the same lines. -/
structure Echo (s : State) (us : List Item) : Prop where
  wellFormed : ∀ u ∈ us, u.WellFormed
  apart : (us.map Item.piece).IsChain Piece.Apart
  text : itemsText us = joinWith ['\n'] s.lines
  state : (run s.width us).flush = s.calm
  atoms : ∀ a ∈ (run s.width us).atoms, a.text ≠ []
  last : ∀ u ∈ us.getLast?, u.isGap = false
  nil : s.lines = [] → us = []
  depth : s.lines = [] → s.depth = 0
  inked : Inked s.lines

/-- An echo that ends in a block, or is empty: the formatter holds nothing back. -/
structure Rests (s : State) (us : List Item) : Prop extends Echo s us where
  rest : run s.width us = s.calm

/-- What comes between an echo and the next item. -/
def separator (s : State) (depth : Nat) : List Item :=
  if s.lines = [] then [] else [.phrase (.gap (lineSep s.blankWanted depth))]

theorem separator_wellFormed (s : State) (depth : Nat) :
    ∀ i ∈ separator s depth, i.WellFormed := by
  intro i hi
  unfold separator at hi
  split at hi
  · cases hi
  · obtain rfl := List.mem_singleton.mp hi
    exact isGap_lineSep _ _

namespace Echo

variable {s : State} {us : List Item}

theorem no_atoms (h : Echo s us) :
    s.atoms = [] ∧ s.spacePending = false ∧ s.blankAfter = false := by
  have hempty : ∀ t : State,
      t.flush.atoms = [] ∧ t.flush.spacePending = false ∧ t.flush.blankAfter = false := by
    intro t
    unfold State.flush
    split
    · rename_i hnil
      exact ⟨List.isEmpty_iff.mp hnil, rfl, rfl⟩
    · exact ⟨rfl, rfl, rfl⟩
  have hflush := hempty (run s.width us)
  rw [h.state] at hflush
  exact hflush

/-- A line that is wanted in between is no part of what has been written. -/
theorem with_blankWanted (h : Echo s us) (wanted : Bool) :
    Echo { s with blankWanted := wanted } us :=
  ⟨h.wellFormed, h.apart, h.text, h.state, h.atoms, h.last, h.nil, h.depth, h.inked⟩

/-- Items after an echo and a separator stay apart from it. -/
theorem apart_separator (h : Echo s us) (depth : Nat)
    {next : Item} {rest : List Item} (hnext : next.isGap = false)
    (hrest : ((next :: rest).map Item.piece).IsChain Piece.Apart) :
    ((us ++ (separator s depth ++ next :: rest)).map Item.piece).IsChain Piece.Apart := by
  have hgap : ∀ i : Item, i.isGap = false → ∀ gap, Piece.Apart i.piece (.gap gap) ∧
      Piece.Apart (.gap gap) i.piece := by
    intro i hi gap
    cases i with
    | phrase p => cases p <;> first | exact ⟨trivial, trivial⟩ | cases hi
    | _ => exact ⟨trivial, trivial⟩
  unfold separator
  split
  · rename_i hnil
    rw [h.nil hnil]
    exact hrest
  · rw [List.map_append]
    refine List.isChain_append.mpr
      ⟨h.apart, List.isChain_cons_cons.mpr ⟨(hgap next hnext _).2, hrest⟩, ?_⟩
    intro x hx y hy
    obtain rfl : Piece.gap (lineSep s.blankWanted depth) = y := by
      simpa [Item.piece, Phrase.piece] using hy
    rw [List.getLast?_map, Option.mem_def, Option.map_eq_some_iff] at hx
    obtain ⟨u, hu, rfl⟩ := hx
    exact (hgap u (h.last u hu) _).1

/-- The text of an echo and of what follows it is the text of the lines. -/
theorem text_separator (h : Echo s us) {depth : Nat} (hdepth : s.lines = [] → depth = 0)
    {lines : List (List Char)} (hne : lines ≠ []) {text : List Char}
    (htext : joinWith ['\n'] lines = indent depth ++ text) :
    itemsText us ++ (itemsText (separator s depth) ++ text) =
      joinWith ['\n'] (s.lines ++ s.gapLine ++ lines) := by
  by_cases hnil : s.lines = []
  · rw [h.nil hnil, separator, if_pos hnil, State.gapLine_of_no_lines hnil, hnil, List.append_nil,
      List.nil_append, htext, hdepth hnil]
    rfl
  · rw [joinWith_gapLine hnil h.inked.last hne, h.text, separator, if_neg hnil, htext]
    simp [Item.text, Item.piece, Phrase.piece, Piece.text, lineSep]

/-- The state after an echo and a separator, when the run has ended. -/
theorem flush_separator (h : Echo s us) (depth : Nat) :
    (run s.width (us ++ separator s depth)).flush = s.begun := by
  unfold separator State.begun
  split
  · rw [List.append_nil, h.state]
    rfl
  · have hgap := State.flush_flow_gap h.atoms (isGap_lineSep s.blankWanted depth)
    rw [run_append, List.map_singleton, List.foldl_cons, List.foldl_nil, Item.piece, Phrase.piece,
      Piece.lay_gap (isFlow_run _ h.wellFormed), hgap, h.state, hasBlankLine_lineSep]
    rfl

/-- Lines with ink at both ends, written after others. -/
theorem inked_append (h : Echo s us) {lines : List (List Char)} (hne : lines ≠ [])
    (hlines : Inked lines) : Inked (s.lines ++ s.gapLine ++ lines) := by
  refine ⟨?_, ?_⟩
  · by_cases hnil : s.lines = []
    · rw [hnil, State.gapLine_of_no_lines hnil]
      exact hlines.head
    · obtain ⟨line, rest, hcons⟩ := List.exists_cons_of_ne_nil hnil
      have hhead := h.inked.head
      rw [hcons] at hhead ⊢
      exact hhead
  · rw [List.getLast?_append_of_ne_nil _ hne]
    exact hlines.last

/-- Items that write lines of their own, appended to an echo. -/
theorem extend (h : Echo s us) {t : State} {depth : Nat} (hdepth : s.lines = [] → depth = 0)
    {next : Item} {rest : List Item} (hwell : ∀ i ∈ next :: rest, i.WellFormed)
    (hnext : next.isGap = false) (hlast : ∀ i ∈ (next :: rest).getLast?, i.isGap = false)
    (hchain : ((next :: rest).map Item.piece).IsChain Piece.Apart)
    {lines : List (List Char)} (hne : lines ≠ []) (hlines : Inked lines)
    (htext : joinWith ['\n'] lines = indent depth ++ itemsText (next :: rest))
    (hwidth : t.width = s.width) (hadds : t.lines = s.lines ++ s.gapLine ++ lines)
    (hstate : (run s.width (us ++ (separator s depth ++ next :: rest))).flush = t.calm)
    (hatoms : ∀ a ∈ (run s.width (us ++ (separator s depth ++ next :: rest))).atoms, a.text ≠ []) :
    Echo t (us ++ (separator s depth ++ next :: rest)) := by
  have hsome : t.lines ≠ [] := by simp [hadds, hne]
  refine ⟨?_, h.apart_separator depth hnext hchain, ?_, hwidth ▸ hstate, hwidth ▸ hatoms, ?_,
    fun hnil => absurd hnil hsome, fun hnil => absurd hnil hsome, ?_⟩
  · intro u hu
    rcases List.mem_append.mp hu with hu | hu
    · exact h.wellFormed u hu
    · exact (List.mem_append.mp hu).elim (separator_wellFormed s depth u) (hwell u)
  · rw [hadds, ← h.text_separator hdepth hne htext, itemsText_append, itemsText_append]
  · rw [← List.append_assoc, List.getLast?_append_of_ne_nil _ (List.cons_ne_nil _ _)]
    exact hlast
  · rw [hadds]
    exact h.inked_append hne hlines

end Echo

theorem Rests.with_blankWanted {s : State} {us : List Item} (h : Rests s us) (wanted : Bool) :
    Rests { s with blankWanted := wanted } us :=
  ⟨h.toEcho.with_blankWanted wanted, h.rest⟩

/-! ## A block -/

namespace Item

theorem enter_eq (i : Item) (s : State) :
    ∃ stack depth, i.enter s = { s with stack := stack, depth := depth } ∧ depth ≤ s.depth := by
  unfold enter
  split
  · rw [State.closeElement]
    split
    · exact ⟨_, _, rfl, Nat.sub_le _ _⟩
    · exact ⟨_, _, rfl, Nat.le_refl _⟩
  · exact ⟨_, _, rfl, Nat.le_refl _⟩

theorem leave_eq (i : Item) (s : State) :
    ∃ stack depth, i.leave s = { s with stack := stack, depth := depth } := by
  unfold leave
  split
  · split <;> exact ⟨_, _, rfl⟩
  · exact ⟨_, _, rfl⟩

/-- What a block adds to a state. -/
theorem layBlock_eq {i : Item} (s : State) {first : List Char} {rest : List (List Char)}
    (hlines : i.lines (i.enter s).depth = first :: rest) :
    ∃ stack depth, i.layBlock s = { s with
      stack := stack, depth := depth, blankWanted := false,
      lines := s.lines ++ s.gapLine ++ (indent (i.enter s).depth ++ first) :: rest } := by
  obtain ⟨stack, depth, henter, -⟩ := i.enter_eq s
  obtain ⟨stack', depth', hleave⟩ :=
    i.leave_eq ((i.enter s).writeLines (i.lines (i.enter s).depth))
  refine ⟨stack', depth', ?_⟩
  rw [layBlock, hleave, hlines, State.writeLines, State.emit_eq, henter]
  simp [State.gapLine]

/-- A blank line is not written in front of the first line. -/
theorem layBlock_begun {i : Item} (hinline : i.isInline = false) (hgap : i.isGap = false)
    (s : State) : i.layBlock s.begun = i.layBlock s := by
  have henter : i.enter s.begun = (i.enter s).begun := by
    unfold enter
    split
    · exact s.closeElement_begun _
    · rfl
  obtain ⟨first, rest, hlines⟩ :=
    List.exists_cons_of_ne_nil (i.inked_lines hinline hgap (i.enter s).depth).1
  rw [layBlock, layBlock, henter]
  change i.leave ((i.enter s).begun.writeLines (i.lines (i.enter s).depth)) = _
  rw [hlines, State.writeLines, State.writeLines, State.emit_eq, State.emit_eq, State.gapLine_begun]
  rfl

end Item

/-- A block after an echo: it is appended as it is printed. -/
theorem Echo.exists_rests_layBlock {s : State} {us : List Item} (h : Echo s us) {i : Item}
    (hi : i.WellFormed) (hinline : i.isInline = false) (hgap : i.isGap = false) :
    ∃ vs, Rests (i.layBlock s) vs := by
  let depth := (i.enter s).depth
  let printed := i.printedAt depth
  have hprinted : printed.WellFormed := Item.printedAt_wellFormed hi
  have hpInline : printed.isInline = false := Item.isInline_printedAt.trans hinline
  have hpGap : printed.isGap = false := Item.isGap_printedAt.trans hgap
  obtain ⟨hne, hinked⟩ := Item.inked_lines hinline hgap depth
  obtain ⟨first, rest, hlines⟩ := List.exists_cons_of_ne_nil hne
  rw [hlines] at hinked
  obtain ⟨stack, after, hlay⟩ := Item.layBlock_eq s hlines
  have hdepth : s.lines = [] → depth = 0 := by
    intro hnil
    obtain ⟨stack, inner, henter, hle⟩ := i.enter_eq s
    have hinner : depth = inner := congrArg State.depth henter
    have hzero := h.depth hnil
    omega
  have hfront : ∀ u ∈ us ++ separator s depth, u.WellFormed := fun u hu =>
    (List.mem_append.mp hu).elim (h.wellFormed u) (separator_wellFormed s depth u)
  -- the formatter is in the same state after the echo, but for the depth of the block
  have hrun : run s.width (us ++ (separator s depth ++ [printed])) = i.layBlock s := by
    rw [← List.append_assoc, run_append, List.map_singleton, List.foldl_cons, List.foldl_nil,
      Item.lay_block (isFlow_run _ hfront) hprinted hpInline hpGap, h.flush_separator,
      Item.layBlock_begun hpInline hpGap]
    exact Item.layBlock_printedAt hi s rfl
  have hcalm : (i.layBlock s).calm = i.layBlock s := by rw [hlay]; rfl
  have hatoms : (i.layBlock s).atoms = [] := by rw [hlay]; exact h.no_atoms.1
  have hflush : (i.layBlock s).flush = i.layBlock s := by
    rw [State.flush_of_no_atoms hatoms, hlay, h.no_atoms.2.1, h.no_atoms.2.2]
  have hwidth : (i.layBlock s).width = s.width := by rw [hlay]
  have htext : joinWith ['\n'] ((indent depth ++ first) :: rest) =
      indent depth ++ itemsText [printed] := by
    rw [joinWith_append_first, ← hlines, ← Item.text_printedAt, itemsText_cons, itemsText_nil,
      List.append_nil]
  refine ⟨us ++ (separator s depth ++ [printed]), h.extend hdepth (by simpa using hprinted) hpGap
    (by simpa using hpGap) (List.isChain_singleton _) (List.cons_ne_nil _ _)
    (hinked.indent depth) htext hwidth
    (by rw [hlay]) ?_ ?_, ?_⟩
  · rw [hrun, hflush, hcalm]
  · rw [hrun, hatoms]
    simp
  · rw [hwidth, hrun, hcalm]

/-! ## An inline run -/

/-- The state without the inline run. -/
def State.settled (s : State) : State :=
  { s with atoms := [], spacePending := false, blankAfter := false }

theorem State.settled_of_no_atoms {s : State}
    (h : s.atoms = [] ∧ s.spacePending = false ∧ s.blankAfter = false) : s.settled = s := by
  obtain ⟨hatoms, hpending, hafter⟩ := h
  cases s
  subst hatoms hpending hafter
  rfl

theorem Item.isGap_of_isInline {i : Item} (h : i.isInline = true) : i.isGap = false := by
  cases i with
  | phrase p => cases p <;> first | rfl | cases h
  | _ => cases h

theorem Item.exists_gap {i : Item} (h : i.isGap = true) : ∃ gap, i = .phrase (.gap gap) := by
  cases i with
  | phrase p => cases p <;> first | exact ⟨_, rfl⟩ | cases h
  | _ => cases h

theorem inline_getLast_spread (room depth : Nat) (current : List Char) {a : Spaced}
    {run : List Spaced} (hinline : ∀ b ∈ a :: run, b.1.isInline = true) :
    ∀ i ∈ (a.1 :: spread room depth current run).getLast?, i.isInline = true := by
  induction run generalizing a current with
  | nil =>
      intro i hi
      obtain rfl := Option.some.inj hi
      exact hinline a (List.mem_cons_self ..)
  | cons b rest ih =>
      have hrest := fun current => ih (a := b) current fun c hc =>
        hinline c (List.mem_cons_of_mem _ hc)
      obtain ⟨item, spaced⟩ := b
      rw [spread]
      split
      · exact hrest _
      · split
        · exact hrest _
        · exact hrest _

theorem inked_of_forall {lines : List (List Char)}
    (h : ∀ line ∈ lines, isEmptyLine line = false) : Inked lines :=
  ⟨fun line hline => h line (List.mem_of_mem_head? hline),
    fun line hline => h line (List.mem_of_mem_getLast? hline)⟩

theorem wrap_cons (width : Int) (depth : Nat) (a : Atom) (rest : List Atom) :
    wrap width depth (a :: rest) = fill (room width depth) a.text rest := rfl

/-- An echo of the lines written so far, and the inline run that is being collected. -/
structure Pending (s : State) (us : List Item) (inline : List Spaced) (prev : Option Item) :
    Prop where
  flow : s.IsFlow
  rests : Rests s.settled us
  atoms : s.atoms = inline.map Spaced.atom
  items : ∀ a ∈ inline, a.1.WellFormed ∧ a.1.isInline = true
  glued : inline.IsChain Spaced.Glued
  link : ∀ a ∈ inline.getLast?, s.spacePending = true ∨ prev = some a.1

theorem Rests.run_separator {s : State} {us : List Item} (h : Rests s us) (depth : Nat) :
    run s.width (us ++ separator s depth) = s.begun := by
  unfold separator State.begun
  split
  · rw [List.append_nil, h.rest]
    rfl
  · have hatoms : s.calm.atoms = [] := h.no_atoms.1
    rw [run_append, List.map_singleton, List.foldl_cons, List.foldl_nil, Item.piece, Phrase.piece,
      Piece.lay_gap (isFlow_run _ h.wellFormed), h.rest,
      State.flow_blank _ (isGap_lineSep s.blankWanted depth).2, if_neg (by simp [hatoms]),
      hasBlankLine_lineSep]
    rfl

/-- The end of a run: its items are appended as they are spread over lines. -/
theorem Pending.exists_echo_flush {s : State} {us : List Item} {inline : List Spaced}
    {prev : Option Item} (h : Pending s us inline prev) : ∃ vs, Echo s.flush vs := by
  cases inline with
  | nil =>
      have hsettled : s.flush = s.settled := by
        rw [State.flush_of_no_atoms (by simpa using h.atoms), State.settled]
        simp [h.atoms]
      exact ⟨us, hsettled ▸ h.rests.toEcho⟩
  | cons first rest =>
      obtain ⟨hfirst, hinline⟩ := h.items first (List.mem_cons_self ..)
      have hall : ∀ a ∈ first :: rest, a.1.isInline = true := fun a ha => (h.items a ha).2
      have hrest : ∀ a ∈ rest, a.1.WellFormed := fun a ha =>
        (h.items a (List.mem_cons_of_mem _ ha)).1
      have hatoms : s.atoms = ⟨first.1.text, first.2⟩ :: rest.map Spaced.atom := h.atoms
      have hne : s.atoms ≠ [] := by simp [hatoms]
      have htexts : ∀ a ∈ s.atoms, a.text ≠ [] := by
        intro a ha
        rw [h.atoms, List.mem_map] at ha
        obtain ⟨b, hb, rfl⟩ := ha
        exact Item.text_ne_nil (h.items b hb).1
      let lines := fill (room s.width s.depth) first.1.text (rest.map Spaced.atom)
      have hlines : lines ≠ [] := fill_ne_nil _ (Item.text_ne_nil hfirst) _
      have hink : ∀ line ∈ lines, isEmptyLine line = false := by
        refine fill_not_blank _ (.inr (Item.not_blank_of_inline hfirst hinline)) fun a ha => ?_
        obtain ⟨b, hb, rfl⟩ := List.mem_map.mp ha
        obtain ⟨hb, hbInline⟩ := h.items b (List.mem_cons_of_mem _ hb)
        exact Item.not_blank_of_inline hb hbInline
      have hflush := State.flush_of_atoms hne htexts
      rw [hatoms, wrap_cons] at hflush
      let again := spread (room s.width s.depth) s.depth first.1.text rest
      -- laying out the echo collects the same atoms
      have hrun : run s.width (us ++ (separator s.settled s.depth ++ first.1 :: again)) =
          { s.settled.begun with atoms := ⟨first.1.text, false⟩ :: rest.map Spaced.atom } := by
        have hfront : ∀ u ∈ us ++ separator s.settled s.depth, u.WellFormed := fun u hu =>
          (List.mem_append.mp hu).elim (h.rests.wellFormed u) (separator_wellFormed _ _ u)
        have hsep : run s.width (us ++ separator s.settled s.depth) = s.settled.begun :=
          h.rests.run_separator s.depth
        have hbegun : s.settled.begun.IsFlow := h.flow
        rw [← List.append_assoc, run_append, hsep, List.map_cons, List.foldl_cons,
          Item.lay_inline hbegun hfirst hinline]
        exact foldl_spread _ _ _ (fun a ha => h.items a (List.mem_cons_of_mem _ ha))
          (hbegun.addAtom _) (by simp [State.addAtom]) rfl rfl
      have hagain : ∀ a ∈ (⟨first.1.text, false⟩ :: rest.map Spaced.atom : List Atom),
          a.text ≠ [] := by
        intro a ha
        rcases List.mem_cons.mp ha with rfl | ha
        · exact Item.text_ne_nil hfirst
        · exact htexts a (hatoms ▸ List.mem_cons_of_mem _ ha)
      have hdepth : s.settled.lines = [] → s.depth = 0 := h.rests.depth
      let written := lines.map (indent s.depth ++ ·)
      have hwritten : written ≠ [] := by simpa [written] using hlines
      have hchain := isChain_spread (room s.width s.depth) s.depth first.1.text hall h.glued
      refine ⟨us ++ (separator s.settled s.depth ++ first.1 :: again),
        h.rests.toEcho.extend hdepth ?_ (Item.isGap_of_isInline hinline) ?_ hchain hwritten
          ?_ ?_ ?_ ?_ ?_ ?_⟩
      · intro i hi
        rcases List.mem_cons.mp hi with rfl | hi
        · exact hfirst
        · exact spread_wellFormed _ _ _ hrest i hi
      · exact fun i hi => Item.isGap_of_isInline (inline_getLast_spread _ _ _ hall i hi)
      · refine inked_of_forall fun line hline => ?_
        obtain ⟨bare, hbare, rfl⟩ := List.mem_map.mp hline
        rw [isEmptyLine_append, hink bare hbare, Bool.and_false]
      · rw [joinWith_map_indent _ hlines, itemsText_cons,
          append_textOf_spread _ _ (Item.text_ne_nil hfirst) hrest]
      · rw [hflush]
        rfl
      · rw [hflush]
        rfl
      · change (run s.width _).flush = _
        rw [hrun, State.flush_of_atoms (List.cons_ne_nil _ _) hagain, hflush]
        have hgap : ({ s.settled.begun with
            atoms := ⟨first.1.text, false⟩ :: rest.map Spaced.atom } : State).gapLine = s.gapLine :=
          State.gapLine_begun s.settled
        rw [hgap]
        rfl
      · change ∀ a ∈ (run s.width _).atoms, _
        rw [hrun]
        exact hagain

end Folio.Markup
