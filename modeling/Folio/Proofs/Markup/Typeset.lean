import Folio.Proofs.Markup.Parts
import Folio.Proofs.Markup.ScriptBodies

/-!
# Parts in lines

The lines that a formatter writes are parts with gaps between them (`Typeset`).  There is one
lemma for each way in which parts come to be lines: a part on a line of its own, a verbatim
element, a script, and an inline run that is wrapped.  All of them are added to the lines before
them in one way, behind at most one empty line, and `Typeset.append` says that the gap that comes
of it holds no more than one blank line.
-/

namespace Folio.Markup

open Text

/-! ## Lines that are written -/

/-- A line that neither begins nor ends with a line end. -/
def IsLine (line : List Char) : Prop :=
  line.head? ≠ some '\n' ∧ line.getLast? ≠ some '\n'

theorem isLine_of_not_mem {line : List Char} (h : '\n' ∉ line) : IsLine line :=
  ⟨fun hhead => h (List.mem_of_mem_head? hhead), fun hlast => h (List.mem_of_mem_getLast? hlast)⟩

/-- Lines that parts are laid out in.  No line begins or ends with a line end, though a tag may
have some in it. -/
structure Typeset (lines : List (List Char)) (ps : List Placed) : Prop where
  text : joinWith ['\n'] lines = laidText ps
  laid : Laid ps
  first : ∀ p ∈ ps.head?, '\n' ∉ p.gap ∧ p.printed.head? ≠ some '\n'
  ends : ∀ line ∈ lines, IsLine line
  nil : ps = [] → lines = []

/-- What stands between lines and those that are added to them: an empty line, or nothing. -/
def IsBreak (lines gap : List (List Char)) : Prop :=
  gap = [] ∨ gap = [[]] ∧ lines ≠ []

theorem State.isBreak_gapLine (s : State) : IsBreak s.lines s.gapLine := by
  unfold gapLine
  split
  · rename_i last hlast
    split
    · refine .inr ⟨rfl, fun hnil => ?_⟩
      rw [hnil] at hlast
      cases hlast
    · exact .inl rfl
  · exact .inl rfl

theorem newline_not_mem_indent (depth : Nat) : '\n' ∉ indent depth := by
  rw [indent, List.mem_replicate]
  rintro ⟨-, h⟩
  exact absurd h (by decide)

theorem typeset_nil : Typeset [] [] :=
  ⟨rfl, ⟨by simp, .nil⟩, by simp, by simp, fun _ => rfl⟩

/-- Parts that neither begin nor end with a line end may follow one another in any way. -/
theorem laid_of_edged (ps : List Placed) (h : ∀ p ∈ ps, p.WellFormed ∧ Edged p.printed) :
    Laid ps ∧ EndsInLine ps := by
  refine ⟨⟨fun p hp => (h p hp).1, ?_⟩, fun p hp => (h p (List.mem_of_getLast? hp)).2.last⟩
  induction ps with
  | nil => exact .nil
  | cons p ps ih =>
      obtain ⟨hp, hps⟩ := List.forall_mem_cons.mp h
      refine List.isChain_cons.mpr ⟨fun q _ hlast => absurd hlast hp.2.last, ih hps⟩

theorem space_of_mem_indent {depth : Nat} {c : Char} (h : c ∈ indent depth) : c = ' ' := by
  rw [indent, List.mem_replicate] at h
  exact h.2

/-- The line end before what is added, and that of the empty line, are all that comes between. -/
theorem IsBreak.exists_joinWith {lines gap more : List (List Char)} (h : IsBreak lines gap)
    (hlines : lines ≠ []) (hmore : more ≠ []) :
    ∃ feeds : List Char, (∀ c ∈ feeds, c = '\n') ∧ feeds.count '\n' ≤ 2 ∧
      joinWith ['\n'] (lines ++ gap ++ more) =
        joinWith ['\n'] lines ++ (feeds ++ joinWith ['\n'] more) := by
  rcases h with rfl | ⟨rfl, -⟩
  · exact ⟨['\n'], by simp, by decide, by rw [List.append_nil, joinWith_append _ hlines hmore]⟩
  · have hempty : joinWith ['\n'] ([[]] ++ more) = '\n' :: joinWith ['\n'] more :=
      joinWith_cons ['\n'] [] hmore
    refine ⟨['\n', '\n'], by simp, by decide, ?_⟩
    rw [List.append_assoc, joinWith_append _ hlines (by simp), hempty]
    rfl

/-- The gap of a first part may be widened by line ends. -/
theorem Laid.widen {p : Placed} {ps : List Placed} (h : Laid (p :: ps)) (hgap : '\n' ∉ p.gap)
    (hhead : p.printed.head? ≠ some '\n') {feeds : List Char} (hfeeds : ∀ c ∈ feeds, c = '\n')
    (hcount : feeds.count '\n' ≤ 2) : Laid (⟨feeds ++ p.gap, p.part, p.printed⟩ :: ps) := by
  obtain ⟨hp, hps⟩ := List.forall_mem_cons.mp h.placed
  refine ⟨List.forall_mem_cons.mpr ⟨⟨?_, ?_, hp.prints, hp.ne_nil, fun hfirst =>
    absurd hfirst hhead⟩, hps⟩, ?_⟩
  · exact List.forall_mem_append.mpr ⟨fun c hc => .inr (hfeeds c hc), hp.gap⟩
  · rw [List.count_append, List.count_eq_zero.mpr hgap]
    exact hcount
  · obtain ⟨hseam, hrest⟩ := List.isChain_cons.mp h.parted
    exact List.isChain_cons.mpr ⟨hseam, hrest⟩

theorem Laid.append {ps qs : List Placed} (h : Laid ps) (hends : EndsInLine ps)
    (hnext : Laid qs) : Laid (ps ++ qs) where
  placed := List.forall_mem_append.mpr ⟨h.placed, hnext.placed⟩
  parted := List.isChain_append.mpr
    ⟨h.parted, hnext.parted, fun p hp _ _ hlast => absurd hlast (hends p hp)⟩

theorem EndsInLine.append_cons {p : Placed} {ps : List Placed} (h : EndsInLine (p :: ps))
    (front : List Placed) (gap : List Char) :
    EndsInLine (front ++ ⟨gap, p.part, p.printed⟩ :: ps) := by
  intro q hq
  rw [List.getLast?_append_of_ne_nil _ (List.cons_ne_nil _ _)] at hq
  cases ps with
  | nil =>
      obtain rfl := Option.some.inj hq
      exact h p rfl
  | cons r ps => exact h q (by rw [List.getLast?_cons_cons] at hq ⊢; exact hq)

/-- Where there are no lines, there are no parts. -/
theorem Typeset.eq_nil {ps : List Placed} (h : Typeset [] ps) : ps = [] := by
  cases ps with
  | nil => rfl
  | cons p ps =>
      have htext := h.text
      rw [laidText_cons, List.append_assoc] at htext
      obtain ⟨hprinted, -⟩ := List.append_eq_nil_iff.mp (List.append_eq_nil_iff.mp htext.symm).2
      exact absurd hprinted (h.laid.placed p List.mem_cons_self).ne_nil

/-- **Lines are added** behind at most one empty line. -/
theorem Typeset.append {lines more gap : List (List Char)} {laid next : List Placed}
    (h : Typeset lines laid) (hends : EndsInLine laid) (hnext : Typeset more next)
    (hmore : more ≠ []) (hgap : IsBreak lines gap) :
    ∃ added, Typeset (lines ++ gap ++ more) (laid ++ added) ∧
      added.map Placed.part = next.map Placed.part ∧
      (EndsInLine next → EndsInLine (laid ++ added)) := by
  by_cases hlines : lines = []
  · subst hlines
    obtain rfl : gap = [] := hgap.resolve_right fun hother => hother.2 rfl
    obtain rfl := h.eq_nil
    exact ⟨next, hnext, rfl, id⟩
  obtain ⟨p, ps, rfl⟩ := List.exists_cons_of_ne_nil fun hnil => hmore (hnext.nil hnil)
  obtain ⟨hfirst, hhead⟩ := hnext.first p rfl
  -- the line ends come into the gap of the first part
  obtain ⟨feeds, hfeeds, hcount, hjoin⟩ := hgap.exists_joinWith hlines hmore
  have hlaid : laid ≠ [] := fun hnil => hlines (h.nil hnil)
  refine ⟨⟨feeds ++ p.gap, p.part, p.printed⟩ :: ps, ⟨?_, ?_, ?_, ?_, ?_⟩, rfl,
    fun hlast => hlast.append_cons laid _⟩
  · rw [hjoin, h.text, hnext.text]
    simp
  · exact h.laid.append hends (hnext.laid.widen hfirst hhead hfeeds hcount)
  · rw [List.head?_append_of_ne_nil _ hlaid]
    exact h.first
  · refine List.forall_mem_append.mpr ⟨List.forall_mem_append.mpr ⟨h.ends, ?_⟩, hnext.ends⟩
    rcases hgap with rfl | ⟨rfl, -⟩
    · simp
    · exact List.forall_mem_singleton.mpr (isLine_of_not_mem (by simp))
  · intro hnil
    exact absurd (List.append_eq_nil_iff.mp hnil).1 hlaid

/-! ### Blocks -/

theorem Edged.isLine_indent {text : List Char} (h : Edged text) (depth : Nat) :
    IsLine (indent depth ++ text) := by
  refine ⟨?_, by rw [List.getLast?_append_of_ne_nil _ h.ne_nil]; exact h.last⟩
  cases hindent : indent depth with
  | nil => exact h.head
  | cons c rest =>
      have hc : c = ' ' := space_of_mem_indent (by rw [hindent]; exact List.mem_cons_self)
      simp [hc]

theorem Edged.append {s t : List Char} (hs : Edged s) (ht : Edged t) : Edged (s ++ t) :=
  ⟨by simp [hs.ne_nil], by rw [List.head?_append_of_ne_nil _ hs.ne_nil]; exact hs.head,
    by rw [List.getLast?_append_of_ne_nil _ ht.ne_nil]; exact ht.last⟩

section

variable (depth : Nat)

/-- The first part of a block stands behind the indentation. -/
theorem wellFormed_indent {p : TextPart} {printed : List Char} (hprints : p.Prints printed)
    (hne : printed ≠ []) (hhead : printed.head? ≠ some '\n') :
    (⟨indent depth, p, printed⟩ : Placed).WellFormed where
  gap _ hc := .inl (space_of_mem_indent hc)
  feeds := by rw [List.count_eq_zero.mpr (newline_not_mem_indent depth)]; exact Nat.zero_le _
  prints := hprints
  ne_nil := hne
  head h := absurd h hhead

/-- The lines of a block, the first of which is indented. -/
theorem typeset_cons {p : TextPart} {printed : List Char} {ps : List Placed}
    {lines : List (List Char)} (hlaid : Laid (⟨indent depth, p, printed⟩ :: ps))
    (hhead : printed.head? ≠ some '\n')
    (htext : joinWith ['\n'] lines = indent depth ++ printed ++ laidText ps)
    (hlines : ∀ line ∈ lines, IsLine line) :
    Typeset lines (⟨indent depth, p, printed⟩ :: ps) where
  text := htext
  laid := hlaid
  first q hq := by
    obtain rfl := Option.some.inj hq
    exact ⟨newline_not_mem_indent depth, hhead⟩
  ends := hlines
  nil h := absurd h (List.cons_ne_nil _ _)

/-- A part on a line of its own, whatever line ends it has in it. -/
theorem typeset_line {p : TextPart} (hprints : p.Prints p.text) (h : Edged p.text) :
    Typeset [indent depth ++ p.text] [⟨indent depth, p, p.text⟩] ∧
      EndsInLine [⟨indent depth, p, p.text⟩] := by
  obtain ⟨hlaid, hends⟩ := laid_of_edged [⟨indent depth, p, p.text⟩]
    (List.forall_mem_singleton.mpr ⟨wellFormed_indent depth hprints h.ne_nil h.head, h⟩)
  refine ⟨typeset_cons depth hlaid h.head (by simp) ?_, hends⟩
  exact List.forall_mem_singleton.mpr (h.isLine_indent depth)

/-- A part that is copied line by line. -/
theorem typeset_verbatimLines {p : TextPart} (hprints : p.Prints p.text) (hne : p.text ≠ [])
    (hhead : p.text.head? ≠ some '\n') :
    Typeset (verbatimLines depth p.text) [⟨indent depth, p, p.text⟩] := by
  refine typeset_cons depth ⟨List.forall_mem_singleton.mpr (wellFormed_indent depth hprints hne
    hhead), .singleton _⟩ hhead (by rw [joinWith_verbatimLines]; simp) ?_
  obtain ⟨first, rest, hsplit, hlines⟩ := exists_verbatimLines depth p.text
  have hpieces : ∀ piece ∈ first :: rest, '\n' ∉ piece := fun piece hpiece =>
    not_mem_of_mem_splitAt (by rw [hsplit]; exact hpiece)
  obtain ⟨hfirst, hrest⟩ := List.forall_mem_cons.mp hpieces
  rw [hlines]
  refine List.forall_mem_cons.mpr ⟨isLine_of_not_mem fun hmem => ?_,
    fun line hline => isLine_of_not_mem (hrest line hline)⟩
  rcases List.mem_append.mp hmem with hmem | hmem
  · exact newline_not_mem_indent depth hmem
  · exact hfirst hmem

theorem newline_not_mem_scriptLines (body : List Char) :
    ∀ line ∈ State.scriptLines depth body, '\n' ∉ line := by
  intro line hline
  rw [scriptLines_eq] at hline
  obtain ⟨source, hsource, rfl⟩ := List.mem_map.mp hline
  rw [place]
  split
  · simp
  · intro hmem
    rcases List.mem_append.mp hmem with hmem | hmem
    · exact newline_not_mem_indent _ hmem
    · exact not_mem_of_mem_splitAt hsource ((printed_isPrefix source).subset hmem)

theorem joinWith_scriptBlock (name : String) (source body : List Char) :
    joinWith ['\n'] (scriptBlock depth name source (State.scriptLines depth body)) =
      indent depth ++ source ++ (reindented depth body ++ closing name) := by
  have hne : State.scriptLines depth body ≠ [] := by
    rw [scriptLines_eq]
    simp [splitAt, splitBy_ne_nil]
  rw [scriptBlock, joinWith_cons _ _ (by simp), joinWith_append _ hne (by simp),
    joinWith_singleton]
  simp [reindented]

/-- A script element, the lines of its body being placed below its start tag. -/
theorem typeset_scriptBlock (name : String) {source : List Char} (hsource : Enclosed source)
    (body : List Char) :
    Typeset (scriptBlock depth name source (State.scriptLines depth body))
        [⟨indent depth, ⟨.tag, source⟩, source⟩,
          ⟨[], ⟨.scriptBody, body⟩, reindented depth body⟩,
          ⟨[], ⟨.tag, closing name⟩, closing name⟩] ∧
      EndsInLine [⟨indent depth, ⟨.tag, source⟩, source⟩,
        ⟨[], ⟨.scriptBody, body⟩, reindented depth body⟩,
        ⟨[], ⟨.tag, closing name⟩, closing name⟩] := by
  have hsource := hsource.edged
  have hclose := (enclosed_closing name).edged
  refine ⟨typeset_cons depth ⟨?_, ?_⟩ hsource.head (by rw [joinWith_scriptBlock]; simp) ?_, ?_⟩
  · refine List.forall_mem_cons.mpr ⟨wellFormed_indent depth rfl hsource.ne_nil hsource.head,
      List.forall_mem_cons.mpr
        ⟨⟨by simp, by simp, ⟨depth, rfl⟩, by simp [reindented], fun _ => rfl⟩,
        List.forall_mem_singleton.mpr ⟨by simp, by simp, rfl, hclose.ne_nil, fun _ => rfl⟩⟩⟩
  · refine List.isChain_cons_cons.mpr ⟨fun hlast => absurd hlast hsource.last,
      List.isChain_cons_cons.mpr ⟨fun _ => ⟨rfl, hclose.head⟩, .singleton _⟩⟩
  · refine List.forall_mem_cons.mpr ⟨hsource.isLine_indent depth,
      List.forall_mem_append.mpr ⟨fun line hline => ?_, ?_⟩⟩
    · exact isLine_of_not_mem (newline_not_mem_scriptLines depth body line hline)
    · exact List.forall_mem_singleton.mpr (hclose.isLine_indent depth)
  · rintro p ⟨⟩
    exact hclose.last

/-- A script element with a blank body. -/
theorem typeset_emptyScript (name : String) {source : List Char} (hsource : Enclosed source) :
    Typeset [indent depth ++ (source ++ closing name)]
        [⟨indent depth, ⟨.tag, source⟩, source⟩, ⟨[], ⟨.tag, closing name⟩, closing name⟩] ∧
      EndsInLine [⟨indent depth, ⟨.tag, source⟩, source⟩,
        ⟨[], ⟨.tag, closing name⟩, closing name⟩] := by
  have hsource := hsource.edged
  have hclose := (enclosed_closing name).edged
  obtain ⟨hlaid, hends⟩ := laid_of_edged [⟨indent depth, ⟨.tag, source⟩, source⟩,
    ⟨[], ⟨.tag, closing name⟩, closing name⟩]
    (List.forall_mem_cons.mpr ⟨⟨wellFormed_indent depth rfl hsource.ne_nil hsource.head, hsource⟩,
      List.forall_mem_singleton.mpr
        ⟨⟨by simp, by simp, rfl, hclose.ne_nil, fun _ => rfl⟩, hclose⟩⟩)
  refine ⟨typeset_cons depth hlaid hsource.head (by simp) ?_, hends⟩
  exact List.forall_mem_singleton.mpr ((hsource.append hclose).isLine_indent depth)

end

/-! ### Inline runs -/

/-- The atoms of an inline run and the parts that they are. -/
def Collected (atoms : List Atom) (parts : List TextPart) : Prop :=
  List.Forall₂ (fun a p => a.text = p.text ∧ p.Inline) atoms parts

/-- An inline part behind a gap. -/
theorem TextPart.Inline.wellFormed_placed {p : TextPart} (hp : p.Inline) {gap : List Char}
    (hgap : ∀ c ∈ gap, c = ' ' ∨ c = '\n') (hfeeds : gap.count '\n' ≤ 2) :
    (⟨gap, p, p.text⟩ : Placed).WellFormed :=
  ⟨hgap, hfeeds, hp.prints, hp.edged.ne_nil, fun hhead => absurd hhead hp.edged.head⟩

/-- Where a line is begun, atoms go on in it or on further lines. -/
theorem exists_placed_fill (room depth : Nat) {current : List Char} (hcurrent : Edged current)
    {atoms : List Atom} {parts : List TextPart} (h : Collected atoms parts) :
    ∃ ps : List Placed, ps.map Placed.part = parts ∧ (∀ p ∈ ps, p.WellFormed ∧ Edged p.printed) ∧
      joinWith ['\n'] ((fill room current atoms).map (indent depth ++ ·)) =
        indent depth ++ current ++ laidText ps ∧
      ∀ line ∈ fill room current atoms, Edged line := by
  induction h generalizing current with
  | nil =>
      have hfill : fill room current [] = [current] := by
        rw [fill, if_neg (by simpa using hcurrent.ne_nil)]
      exact ⟨[], rfl, by simp, by simp [hfill], by simpa [hfill] using hcurrent⟩
  | @cons a p atoms parts hap hrest ih =>
      obtain ⟨htext, hp⟩ := hap
      have ha : Edged a.text := htext ▸ hp.edged
      -- The atom goes on in the line, begins the next one, or follows a space.
      rw [fill, if_neg (by simpa using hcurrent.ne_nil)]
      split
      · obtain ⟨ps, hparts, hps, hjoin, hlines⟩ := ih (hcurrent.append ha)
        refine ⟨⟨[], p, p.text⟩ :: ps, by rw [List.map_cons, hparts],
          List.forall_mem_cons.mpr ⟨⟨hp.wellFormed_placed (by simp) (by simp), hp.edged⟩, hps⟩,
          ?_, hlines⟩
        rw [hjoin, htext]
        simp
      · split
        · obtain ⟨ps, hparts, hps, hjoin, hlines⟩ := ih ha
          have hfeeds : ('\n' :: indent depth).count '\n' = 1 := by
            rw [List.count_cons_self, List.count_eq_zero.mpr (newline_not_mem_indent depth)]
          refine ⟨⟨'\n' :: indent depth, p, p.text⟩ :: ps, by rw [List.map_cons, hparts],
            List.forall_mem_cons.mpr ⟨⟨hp.wellFormed_placed ?_ (by omega), hp.edged⟩, hps⟩,
            ?_, List.forall_mem_cons.mpr ⟨hcurrent, hlines⟩⟩
          · exact List.forall_mem_cons.mpr ⟨.inr rfl, fun c hc => .inl (space_of_mem_indent hc)⟩
          · rw [List.map_cons, joinWith_cons _ _ (by simpa using fill_ne_nil room ha.ne_nil atoms),
              hjoin, htext]
            simp
        · have hspace : Edged (' ' :: a.text) :=
            ⟨by simp, by simp, by
              rw [← List.singleton_append, List.getLast?_append_of_ne_nil _ ha.ne_nil]
              exact ha.last⟩
          obtain ⟨ps, hparts, hps, hjoin, hlines⟩ := ih (hcurrent.append hspace)
          refine ⟨⟨[' '], p, p.text⟩ :: ps, by rw [List.map_cons, hparts],
            List.forall_mem_cons.mpr ⟨⟨hp.wellFormed_placed (by simp) (by decide), hp.edged⟩, hps⟩,
            ?_, hlines⟩
          rw [hjoin, htext]
          simp

/-- The lines that an inline run is wrapped in. -/
theorem exists_typeset_wrap (width : Int) (depth : Nat) {atoms : List Atom} {parts : List TextPart}
    (h : Collected atoms parts) (hne : atoms ≠ []) :
    ∃ ps, Typeset ((wrap width depth atoms).map (indent depth ++ ·)) ps ∧ EndsInLine ps ∧
      ps.map Placed.part = parts := by
  cases h with
  | nil => exact absurd rfl hne
  | @cons a p atoms parts hap hrest =>
      obtain ⟨htext, hp⟩ := hap
      have ha : Edged a.text := htext ▸ hp.edged
      obtain ⟨ps, hparts, hps, hjoin, hlines⟩ :=
        exists_placed_fill (room width depth) depth ha hrest
      have hwrap : wrap width depth (a :: atoms) = fill (room width depth) a.text atoms := by
        rw [wrap, fill, if_pos List.isEmpty_nil]
      obtain ⟨hlaid, hends⟩ := laid_of_edged (⟨indent depth, p, p.text⟩ :: ps)
        (List.forall_mem_cons.mpr
          ⟨⟨wellFormed_indent depth hp.prints hp.edged.ne_nil hp.edged.head, hp.edged⟩, hps⟩)
      refine ⟨_, typeset_cons depth hlaid hp.edged.head ?_ ?_, hends,
        by rw [List.map_cons, hparts]⟩
      · rw [hwrap, hjoin, htext]
      · rw [hwrap]
        intro line hline
        obtain ⟨text, htext, rfl⟩ := List.mem_map.mp hline
        exact (hlines text htext).isLine_indent depth

end Folio.Markup
