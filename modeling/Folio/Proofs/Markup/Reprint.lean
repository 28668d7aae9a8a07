import Folio.Proofs.Markup.Echo

/-!
# Printing a document again

Pretty-printing a well-formed document gives a well-formed document that prints as
itself.

An inline item extends the run that is pending, white space leaves it as it is, and a
block ends it (`Pending.lay`); so there is an echo of every document
(`Pending.foldl_lay`), and its text is what the document is printed as
(`Echo.printLines`).  `prettify_prettify` is the result for whole texts.
-/

namespace Folio.Markup

open Text

/-! ## Item by item -/

theorem Item.width_lay {s : State} {i : Item} (hs : s.IsFlow) (hi : i.WellFormed) :
    (Piece.lay s i.piece).width = s.width := by
  cases hinline : i.isInline with
  | true =>
      rw [lay_inline hs hi hinline]
      rfl
  | false =>
      cases hgap : i.isGap with
      | true =>
          obtain ⟨gap, rfl⟩ := exists_gap hgap
          rw [piece, Phrase.piece, Piece.lay_gap hs, State.flow_blank _ hi.2]
          split <;> rfl
      | false =>
          obtain ⟨lines, wanted, hflush, -⟩ := s.flush_spec
          obtain ⟨first, rest, hlines⟩ :=
            List.exists_cons_of_ne_nil (i.inked_lines hinline hgap (i.enter s.flush).depth).1
          obtain ⟨stack, depth, hlay⟩ := layBlock_eq s.flush hlines
          rw [lay_block hs hi hinline hgap, hlay, hflush]

theorem width_run (width : Int) {items : List Item} (h : ∀ i ∈ items, i.WellFormed) :
    (run width items).width = width := by
  have hfold : ∀ {s : State}, s.IsFlow →
      ((items.map Item.piece).foldl Piece.lay s).width = s.width := by
    induction items with
    | nil => exact fun _ => rfl
    | cons i rest ih =>
        obtain ⟨hi, hrest⟩ := List.forall_mem_cons.mp h
        intro s hs
        rw [List.map_cons, List.foldl_cons, ih hrest (Item.isFlow_lay hs hi), Item.width_lay hs hi]
  exact hfold (State.isFlow_start width)

namespace Pending

variable {s : State} {us : List Item} {inline : List Spaced} {prev : Option Item} {i : Item}

theorem start (width : Int) : Pending (State.start width) [] [] none := by
  refine ⟨State.isFlow_start width, ⟨⟨by simp, List.isChain_nil, rfl, ?_, ?_, by simp,
    fun _ => rfl, fun _ => rfl, ⟨by simp [State.settled, State.start], by
      simp [State.settled, State.start]⟩⟩, rfl⟩, rfl, by simp, List.isChain_nil, by simp⟩
  · rfl
  · intro a ha
    cases ha

theorem lay_inline (h : Pending s us inline prev) (hi : i.WellFormed) (hinline : i.isInline = true)
    (hprev : ∀ p ∈ prev, Piece.Apart p.piece i.piece) :
    Pending (Piece.lay s i.piece) us (inline ++ [(i, s.spacePending)]) (some i) := by
  rw [Item.lay_inline h.flow hi hinline]
  refine ⟨h.flow.addAtom _, h.rests, ?_, ?_, ?_, ?_⟩
  · rw [List.map_append, ← h.atoms]
    rfl
  · intro a ha
    rcases List.mem_append.mp ha with ha | ha
    · exact h.items a ha
    · obtain rfl := List.mem_singleton.mp ha
      exact ⟨hi, hinline⟩
  · refine List.isChain_append.mpr ⟨h.glued, List.isChain_singleton _, fun a ha b hb => ?_⟩
    obtain rfl := Option.some.inj hb
    rcases h.link a ha with hspace | hlast
    · exact .inl hspace
    · exact .inr (hprev _ hlast)
  · intro a ha
    rw [List.getLast?_concat] at ha
    obtain rfl := Option.some.inj ha
    exact .inr rfl

theorem lay_gap (h : Pending s us inline prev) {gap : List Char} (hgap : IsGap gap) :
    Pending (s.flow gap) us inline (some (.phrase (.gap gap))) := by
  refine ⟨h.flow.flow gap, ?_, ?_, h.items, h.glued, ?_⟩
  all_goals rw [s.flow_blank hgap.2]
  · split
    · exact h.rests
    · exact h.rests.with_blankWanted _
  · split <;> exact h.atoms
  · intro a ha
    have hne : s.atoms ≠ [] := by
      rw [h.atoms]
      rintro hnil
      rw [List.map_eq_nil_iff.mp hnil] at ha
      cases ha
    rw [if_pos (by simpa using hne)]
    exact .inl rfl

theorem lay_block (h : Pending s us inline prev) (hi : i.WellFormed) (hinline : i.isInline = false)
    (hgap : i.isGap = false) : ∃ vs, Pending (Piece.lay s i.piece) vs [] (some i) := by
  obtain ⟨ws, hws⟩ := h.exists_echo_flush
  obtain ⟨vs, hvs⟩ := hws.exists_rests_layBlock hi hinline hgap
  have hsettled : (i.layBlock s.flush).settled = i.layBlock s.flush :=
    State.settled_of_no_atoms hvs.no_atoms
  rw [Item.lay_block h.flow hi hinline hgap]
  exact ⟨vs, Item.isFlow_layBlock h.flow.flush i, hsettled ▸ hvs, hvs.no_atoms.1, by simp,
    List.isChain_nil, by simp⟩

/-- An item that stays apart from the one before it. -/
theorem lay (h : Pending s us inline prev) (hi : i.WellFormed)
    (hprev : ∀ p ∈ prev, Piece.Apart p.piece i.piece) :
    ∃ vs inline', Pending (Piece.lay s i.piece) vs inline' (some i) := by
  cases hinline : i.isInline with
  | true => exact ⟨us, _, h.lay_inline hi hinline hprev⟩
  | false =>
      cases hgap : i.isGap with
      | false =>
          obtain ⟨vs, hvs⟩ := h.lay_block hi hinline hgap
          exact ⟨vs, [], hvs⟩
      | true =>
          obtain ⟨gap, rfl⟩ := Item.exists_gap hgap
          refine ⟨us, inline, ?_⟩
          rw [Item.piece, Phrase.piece, Piece.lay_gap h.flow]
          exact h.lay_gap hi

theorem foldl_lay {items : List Item} (h : Pending s us inline prev)
    (hitems : ∀ i ∈ items, i.WellFormed) (hchain : (items.map Item.piece).IsChain Piece.Apart)
    (hprev : ∀ p ∈ prev, ∀ i ∈ items.head?, Piece.Apart p.piece i.piece) :
    ∃ vs inline' last, Pending ((items.map Item.piece).foldl Piece.lay s) vs inline' last := by
  induction items generalizing s us inline prev with
  | nil => exact ⟨us, inline, prev, h⟩
  | cons i rest ih =>
      obtain ⟨vs, inline', hstep⟩ :=
        h.lay (hitems i (List.mem_cons_self ..)) fun p hp => hprev p hp i rfl
      refine ih hstep (fun j hj => hitems j (List.mem_cons_of_mem _ hj)) hchain.tail ?_
      rintro p hp j hj
      obtain rfl := Option.some.inj hp
      cases rest with
      | nil => cases hj
      | cons second rest =>
          obtain rfl := Option.some.inj hj
          exact (List.isChain_cons_cons.mp hchain).1

end Pending

/-! ## Whole texts -/

/-- An item in front of others, as one with the first where the two would run together. -/
def joinItem : Item → List Item → List Item
  | .phrase (.word front), .phrase (.word text) :: rest => .phrase (.word (front ++ text)) :: rest
  | .phrase (.gap front), .phrase (.gap text) :: rest => .phrase (.gap (front ++ text)) :: rest
  | i, rest => i :: rest

theorem itemsText_joinItem (i : Item) (items : List Item) :
    itemsText (joinItem i items) = i.text ++ itemsText items := by
  unfold joinItem
  split
  · simp [Item.text, Item.piece, Phrase.piece, Piece.text]
  · simp [Item.text, Item.piece, Phrase.piece, Piece.text]
  · rfl

theorem joinItem_wellFormed {i : Item} (hi : i.WellFormed) {items : List Item}
    (hitems : ∀ j ∈ items, j.WellFormed) : ∀ j ∈ joinItem i items, j.WellFormed := by
  have hmore : ∀ {p : Char → Prop} {front text : List Char}, (∀ c ∈ front, p c) →
      (∀ c ∈ text, p c) → ∀ c ∈ front ++ text, p c := fun hfront htext c hc =>
    (List.mem_append.mp hc).elim (hfront c) (htext c)
  unfold joinItem
  split
  · obtain ⟨hfirst, hrest⟩ := List.forall_mem_cons.mp hitems
    exact List.forall_mem_cons.mpr ⟨⟨by simp [hi.1], hmore hi.2 hfirst.2⟩, hrest⟩
  · obtain ⟨hfirst, hrest⟩ := List.forall_mem_cons.mp hitems
    exact List.forall_mem_cons.mpr ⟨⟨by simp [hi.1], hmore hi.2 hfirst.2⟩, hrest⟩
  · exact List.forall_mem_cons.mpr ⟨hi, hitems⟩

theorem Item.eq_of_piece_word {i : Item} {text : List Char} (h : i.piece = .word text) :
    i = .phrase (.word text) := by
  cases i with
  | phrase p => cases p <;> cases h; rfl
  | _ => cases h

theorem Item.eq_of_piece_gap {i : Item} {text : List Char} (h : i.piece = .gap text) :
    i = .phrase (.gap text) := by
  cases i with
  | phrase p => cases p <;> cases h; rfl
  | _ => cases h

theorem apart_of_ne {i j : Item}
    (hword : ∀ a b, i = .phrase (.word a) → j ≠ .phrase (.word b))
    (hgap : ∀ a b, i = .phrase (.gap a) → j ≠ .phrase (.gap b)) :
    Piece.Apart i.piece j.piece := by
  cases hi : i.piece with
  | markup source ts => trivial
  | word a =>
      have hword := fun b => hword a b (Item.eq_of_piece_word hi)
      cases hj : j.piece with
      | word b => exact hword b (Item.eq_of_piece_word hj)
      | _ => trivial
  | gap a =>
      have hgap := fun b => hgap a b (Item.eq_of_piece_gap hi)
      cases hj : j.piece with
      | gap b => exact hgap b (Item.eq_of_piece_gap hj)
      | _ => trivial

theorem isChain_joinItem (i : Item) {items : List Item}
    (hitems : (items.map Item.piece).IsChain Piece.Apart) :
    ((joinItem i items).map Item.piece).IsChain Piece.Apart := by
  unfold joinItem
  split
  · refine List.isChain_cons.mpr ⟨fun p hp => ?_, hitems.tail⟩
    have happart := (List.isChain_cons.mp hitems).1 p hp
    cases p <;> exact happart
  · refine List.isChain_cons.mpr ⟨fun p hp => ?_, hitems.tail⟩
    have happart := (List.isChain_cons.mp hitems).1 p hp
    cases p <;> exact happart
  · rename_i hword hgap
    refine List.isChain_cons.mpr ⟨fun p hp => ?_, hitems⟩
    rw [List.head?_map, Option.mem_def, Option.map_eq_some_iff] at hp
    obtain ⟨next, hnext, rfl⟩ := hp
    obtain ⟨rest, rfl⟩ := List.head?_eq_some_iff.mp hnext
    exact apart_of_ne (fun a b hi hj => hword a b rest hi (by rw [hj]))
      (fun a b hi hj => hgap a b rest hi (by rw [hj]))

/-- Items can be joined so that no two words and no two gaps are adjacent. -/
theorem exists_apart {items : List Item} (h : ∀ i ∈ items, i.WellFormed) :
    ∃ joined, (∀ i ∈ joined, i.WellFormed) ∧ (joined.map Item.piece).IsChain Piece.Apart ∧
      itemsText joined = itemsText items := by
  induction items with
  | nil => exact ⟨[], h, List.isChain_nil, rfl⟩
  | cons i rest ih =>
      obtain ⟨hi, hrest⟩ := List.forall_mem_cons.mp h
      obtain ⟨joined, hwell, hchain, htext⟩ := ih hrest
      refine ⟨joinItem i joined, joinItem_wellFormed hi hwell, isChain_joinItem i hchain, ?_⟩
      rw [itemsText_joinItem, htext, itemsText_cons]

/-- The lines of an echo, as they are printed. -/
theorem Echo.printLines {s : State} {us : List Item} (h : Echo s us) :
    Markup.printLines s.lines = itemsText (us ++ [.phrase (.gap ['\n'])]) := by
  rw [Markup.printLines, trimLines_of_ends h.inked.head h.inked.last, ← h.text, itemsText_append]
  rfl

/-- Pretty-printing is idempotent on well-formed documents: a text that is made up of
well-formed items is pretty-printed, and the result is pretty-printed as itself. -/
theorem prettify_prettify (width : Int) {items : List Item} (h : ∀ i ∈ items, i.WellFormed) :
    ∃ out, prettify width (itemsText items) = .ok out ∧ prettify width out = .ok out := by
  have hpieces : ∀ {xs : List Item}, (∀ i ∈ xs, i.WellFormed) →
      ∀ p ∈ xs.map Item.piece, p.WellFormed := by
    intro xs hxs p hp
    obtain ⟨i, hi, rfl⟩ := List.mem_map.mp hp
    exact Item.piece_wellFormed (hxs i hi)
  have hfinish : ∀ {xs : List Item}, (∀ i ∈ xs, i.WellFormed) →
      layPieces width (xs.map Item.piece) = (run width xs).flush.lines := by
    intro xs hxs
    obtain ⟨hverbatim, hscript⟩ := isFlow_run width hxs
    change (run width xs).finish.lines = _
    simp only [State.finish, hscript, hverbatim]
  obtain ⟨joined, hwell, hchain, htext⟩ := exists_apart h
  obtain ⟨us, inline, prev, hpending⟩ := (Pending.start width).foldl_lay hwell hchain (by simp)
  obtain ⟨vs, hecho⟩ := hpending.exists_echo_flush
  have hwidth : (run width joined).flush.width = width := by
    obtain ⟨lines, wanted, hflush, -⟩ := (run width joined).flush_spec
    rw [hflush]
    exact width_run width hwell
  have hend : IsGap ['\n'] := ⟨by simp, by simp [isLayoutBlank]⟩
  let again := vs ++ [Item.phrase (.gap ['\n'])]
  have hagain : ∀ i ∈ again, i.WellFormed := fun i hi =>
    (List.mem_append.mp hi).elim (hecho.wellFormed i) fun hi => List.mem_singleton.mp hi ▸ hend
  have happart : (again.map Item.piece).IsChain Piece.Apart := by
    rw [List.map_append]
    refine List.isChain_append.mpr ⟨hecho.apart, List.isChain_singleton _, fun p hp q hq => ?_⟩
    obtain rfl := Option.some.inj hq
    rw [List.getLast?_map, Option.mem_def, Option.map_eq_some_iff] at hp
    obtain ⟨u, hu, rfl⟩ := hp
    refine apart_of_ne (fun a b _ => by simp) fun a b heq _ => ?_
    have hlast := hecho.last u hu
    rw [heq] at hlast
    cases hlast
  have hlines : (run width again).flush.lines = (run width joined).flush.lines := by
    have hstate := hecho.state
    have hatoms := hecho.atoms
    change (run (run width joined).flush.width vs).flush = (run width joined).flush.calm at hstate
    change ∀ a ∈ (run (run width joined).flush.width vs).atoms, a.text ≠ [] at hatoms
    rw [hwidth] at hstate hatoms
    rw [run_append, List.map_singleton, List.foldl_cons, List.foldl_nil, Item.piece, Phrase.piece,
      Piece.lay_gap (isFlow_run width hecho.wellFormed), State.flush_flow_gap hatoms hend, hstate]
    rfl
  refine ⟨itemsText again, ?_, ?_⟩
  · rw [← htext, itemsText, prettify_textOf width (hpieces hwell) hchain, hfinish hwell]
    exact congrArg Except.ok hecho.printLines
  · rw [itemsText, prettify_textOf width (hpieces hagain) happart, hfinish hagain, hlines]
    exact congrArg Except.ok hecho.printLines

/-- A document with a paragraph that is never closed, a verbatim element and a script. -/
def sampleItems : List Item :=
  [.phrase (.tag ⟨['p'], [⟨[' '], ['i', 'd'], [], [], ['a']⟩], [], false⟩), .phrase (.word ['x']),
    .phrase (.gap ['\n', '\n']), .phrase (.reference (.entity ['l', 't'])), .comment ['c'],
    .verbatim ⟨"pre".toList, [], [], false⟩ [.word ['y'], .gap ['\n', ' ', ' ']],
    .script ⟨"style".toList, [], [], false⟩ ['\n', ' ', 'z']]

theorem prettify_prettify_sampleItems :
    (∀ i ∈ sampleItems, i.WellFormed) ∧
      ∃ out, prettify 80 (itemsText sampleItems) = .ok out ∧ prettify 80 out = .ok out := by
  have hid : Attribute.WellFormed ⟨[' '], ['i', 'd'], [], [], ['a']⟩ :=
    ⟨by simp [IsGap, isLayoutBlank], by simp, by simp [isAttributeNameChar, isBlank],
      by simp [IsSpace], by simp [IsSpace], by simp⟩
  have hplain : ∀ {name : List Char}, IsTagName name → Tag.WellFormed ⟨name, [], [], false⟩ :=
    fun h => ⟨h, by simp, by simp [IsSpace]⟩
  have hwell : ∀ i ∈ sampleItems, i.WellFormed := by
    simp only [sampleItems, List.forall_mem_cons]
    refine ⟨?paragraph, ?word, ?gap, ?reference, ?comment, ?verbatim, ?script, by simp⟩
    case paragraph =>
      have hname : IsTagName ['p'] := ⟨⟨'p', _, rfl, by decide⟩, by simp [isTagNameChar, isBlank]⟩
      exact ⟨⟨hname, by simpa using hid, by simp [IsSpace]⟩,
        fun _ => by decide⟩
    case word => exact ⟨by simp, by simp [isBlank]⟩
    case gap => exact ⟨by simp, by simp [isLayoutBlank]⟩
    case reference => exact ⟨⟨'l', _, rfl, by decide⟩, by simp [isEntityChar]⟩
    case comment =>
      intro h
      simpa using h.length_le
    case verbatim =>
      have hname : IsTagName "pre".toList :=
        ⟨⟨'p', _, rfl, by decide⟩, by simp [isTagNameChar, isBlank]⟩
      refine ⟨hplain hname, rfl, by decide, ?_⟩
      simp [Phrase.WellFormed, Item.StaysIn, IsWord, IsGap, isBlank, isLayoutBlank]
    case script =>
      have hname : IsTagName "style".toList :=
        ⟨⟨'s', _, rfl, by decide⟩, by simp [isTagNameChar, isBlank]⟩
      refine ⟨hplain hname, rfl, by decide, ⟨?_, by simp [isBlank]⟩⟩
      intro h
      exact absurd (h.subset (List.mem_cons_self ..)) (by decide)
  exact ⟨hwell, prettify_prettify 80 hwell⟩

end Folio.Markup
