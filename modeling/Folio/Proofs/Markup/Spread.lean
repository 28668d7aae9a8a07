import Folio.Proofs.Markup.Document

/-!
# Inline runs, written and read

The lines that an inline run is wrapped in are themselves an inline run: the same
items, with a space or a line end wherever white space stood between two of them.
`spread` gives that run item by item, `append_textOf_spread` says that its text is the
text of the lines, and `foldl_spread` that it is collected as the same atoms again.
-/

namespace Folio.Markup

open Text

/-- An item of an inline run, and whether white space stands before it. -/
abbrev Spaced := Item × Bool

namespace Spaced

/-- The atom of an item. -/
def atom (a : Spaced) : Atom :=
  ⟨a.1.text, a.2⟩

/-- Two items of a run that stay two when they are written one after the other. -/
def Glued (a b : Spaced) : Prop :=
  b.2 = true ∨ Piece.Apart a.1.piece b.1.piece

end Spaced

/-- White space of one character or a line end and the indentation. -/
def softGap : Item :=
  .phrase (.gap [' '])

/-- A line end and the indentation of the next line. -/
def lineGap (depth : Nat) : Item :=
  .phrase (.gap ('\n' :: indent depth))

/-- The items of a run as they are written in lines, the first line being begun. -/
def spread (room depth : Nat) : List Char → List Spaced → List Item
  | _, [] => []
  | current, (item, spaced) :: rest =>
      if !spaced then item :: spread room depth (current ++ item.text) rest
      else if room < current.length + 1 + item.text.length then
        lineGap depth :: item :: spread room depth item.text rest
      else softGap :: item :: spread room depth (current ++ ' ' :: item.text) rest

/-- The text of items. -/
def itemsText (items : List Item) : List Char :=
  textOf (items.map Item.piece)

@[simp] theorem itemsText_nil : itemsText [] = [] := rfl

@[simp] theorem itemsText_cons (i : Item) (items : List Item) :
    itemsText (i :: items) = i.text ++ itemsText items := rfl

@[simp] theorem itemsText_append (xs ys : List Item) :
    itemsText (xs ++ ys) = itemsText xs ++ itemsText ys := by
  simp [itemsText]

/-- The text of an item is not empty. -/
theorem Item.text_ne_nil {i : Item} (hi : i.WellFormed) : i.text ≠ [] := by
  cases i with
  | phrase p =>
      cases p with
      | word text => exact hi.1
      | gap text => exact hi.1
      | _ => exact List.cons_ne_nil _ _
  | _ => exact List.cons_ne_nil _ _

/-! ## The text of a run -/

theorem append_textOf_spread (room depth : Nat) {current : List Char} (hcurrent : current ≠ [])
    {run : List Spaced} (hrun : ∀ a ∈ run, a.1.WellFormed) :
    current ++ itemsText (spread room depth current run) =
      joinWith ('\n' :: indent depth) (fill room current (run.map Spaced.atom)) := by
  induction run generalizing current with
  | nil => simp [spread, fill, hcurrent]
  | cons a rest ih =>
      obtain ⟨item, spaced⟩ := a
      have hitem : item.text ≠ [] := Item.text_ne_nil (hrun _ (List.mem_cons_self ..))
      have hrest : ∀ a ∈ rest, a.1.WellFormed := fun a ha => hrun a (List.mem_cons_of_mem _ ha)
      have hempty : ¬ current.isEmpty = true := by simpa using hcurrent
      have hatom : Spaced.atom (item, spaced) = ⟨item.text, spaced⟩ := rfl
      rw [List.map_cons, hatom, fill, if_neg hempty, spread]
      cases spaced with
      | false =>
          simp only [Bool.not_false, if_true, itemsText_cons]
          rw [← List.append_assoc]
          exact ih (by simp [hcurrent]) hrest
      | true =>
          simp only [Bool.not_true, Bool.false_eq_true, if_false]
          by_cases hroom : room < current.length + 1 + item.text.length
          · have hnext := ih hitem hrest
            rw [if_pos hroom, if_pos hroom, joinWith_cons _ _ (fill_ne_nil _ hitem _), itemsText_cons,
              itemsText_cons, hnext]
            rfl
          · have hmore : current ++ ' ' :: item.text ≠ [] := by simp
            have hnext := ih hmore hrest
            rw [if_neg hroom, if_neg hroom, ← hnext, itemsText_cons, itemsText_cons]
            simp [softGap, Item.text, Item.piece, Phrase.piece, Piece.text]

/-- Lines that are indented one by one, and lines that are joined with the
indentation. -/
theorem joinWith_map_indent (depth : Nat) {lines : List (List Char)} (hne : lines ≠ []) :
    joinWith ['\n'] (lines.map (indent depth ++ ·)) =
      indent depth ++ joinWith ('\n' :: indent depth) lines := by
  induction lines with
  | nil => exact absurd rfl hne
  | cons first rest ih =>
      by_cases hrest : rest = []
      · simp [hrest]
      · rw [List.map_cons, joinWith_cons _ _ (by simpa using hrest), ih hrest,
          joinWith_cons _ _ hrest]
        simp

/-! ## The items of a run -/

theorem softGap_wellFormed : softGap.WellFormed :=
  ⟨by simp, by simp [isLayoutBlank]⟩

theorem isLayoutBlank_indent (depth : Nat) : ∀ c ∈ indent depth, isLayoutBlank c = true := by
  intro c hc
  rw [indent, List.mem_replicate] at hc
  rw [hc.2]
  rfl

theorem lineGap_wellFormed (depth : Nat) : (lineGap depth).WellFormed := by
  refine ⟨List.cons_ne_nil _ _, fun c hc => ?_⟩
  rcases List.mem_cons.mp hc with rfl | hc
  · rfl
  · exact isLayoutBlank_indent depth c hc

/-- The items of a run that is written in lines are well-formed, and stay apart. -/
theorem spread_wellFormed (room depth : Nat) (current : List Char) {run : List Spaced}
    (hrun : ∀ a ∈ run, a.1.WellFormed) : ∀ i ∈ spread room depth current run, i.WellFormed := by
  induction run generalizing current with
  | nil => simp [spread]
  | cons a rest ih =>
      obtain ⟨item, spaced⟩ := a
      have hitem : item.WellFormed := hrun _ (List.mem_cons_self ..)
      have hrest := fun current => ih current fun a ha => hrun a (List.mem_cons_of_mem _ ha)
      intro i hi
      rw [spread] at hi
      split at hi
      · rcases List.mem_cons.mp hi with rfl | hi
        · exact hitem
        · exact hrest _ i hi
      · split at hi
        · rcases List.mem_cons.mp hi with rfl | hi
          · exact lineGap_wellFormed depth
          rcases List.mem_cons.mp hi with rfl | hi
          · exact hitem
          · exact hrest _ i hi
        · rcases List.mem_cons.mp hi with rfl | hi
          · exact softGap_wellFormed
          rcases List.mem_cons.mp hi with rfl | hi
          · exact hitem
          · exact hrest _ i hi

/-- An inline item next to white space. -/
theorem apart_gap {i : Item} (hi : i.isInline = true) (gap : List Char) :
    Piece.Apart i.piece (.gap gap) ∧ Piece.Apart (.gap gap) i.piece := by
  cases i with
  | phrase p => cases p <;> first | exact ⟨trivial, trivial⟩ | cases hi
  | _ => cases hi

theorem isChain_spread (room depth : Nat) (current : List Char) {a : Spaced} {run : List Spaced}
    (hinline : ∀ b ∈ a :: run, b.1.isInline = true) (hrun : (a :: run).IsChain Spaced.Glued) :
    ((a.1 :: spread room depth current run).map Item.piece).IsChain Piece.Apart := by
  induction run generalizing a current with
  | nil => exact List.isChain_singleton _
  | cons b rest ih =>
      obtain ⟨hglued, hrest⟩ := List.isChain_cons_cons.mp hrun
      have hinlineRest : ∀ c ∈ b :: rest, c.1.isInline = true := fun c hc =>
        hinline c (List.mem_cons_of_mem _ hc)
      have ha := hinline a (List.mem_cons_self ..)
      have hb := hinlineRest b (List.mem_cons_self ..)
      have hgap : ∀ (gap current : List Char), ((a.1 :: .phrase (.gap gap) :: b.1 ::
          spread room depth current rest).map Item.piece).IsChain Piece.Apart := fun gap current =>
        List.isChain_cons_cons.mpr ⟨(apart_gap ha gap).1,
          List.isChain_cons_cons.mpr ⟨(apart_gap hb gap).2, ih current hinlineRest hrest⟩⟩
      obtain ⟨item, spaced⟩ := b
      rw [spread]
      split
      · rename_i hspaced
        refine List.isChain_cons_cons.mpr ⟨?_, ih _ hinlineRest hrest⟩
        rcases hglued with hglued | hglued
        · simp_all
        · exact hglued
      · split
        · exact hgap _ _
        · exact hgap _ _

/-! ## Collecting a run again -/

theorem foldl_spread (room depth : Nat) (current : List Char) {run : List Spaced}
    (hrun : ∀ a ∈ run, a.1.WellFormed ∧ a.1.isInline = true) {s : State} (hs : s.IsFlow)
    (hatoms : s.atoms ≠ []) (hpending : s.spacePending = false) (hafter : s.blankAfter = false) :
    ((spread room depth current run).map Item.piece).foldl Piece.lay s =
      { s with atoms := s.atoms ++ run.map Spaced.atom } := by
  induction run generalizing s current with
  | nil => simp [spread]
  | cons a rest ih =>
      obtain ⟨item, spaced⟩ := a
      obtain ⟨hitem, hinline⟩ := hrun _ (List.mem_cons_self ..)
      have hrest : ∀ a ∈ rest, a.1.WellFormed ∧ a.1.isInline = true := fun a ha =>
        hrun a (List.mem_cons_of_mem _ ha)
      -- an item behind a gap becomes an atom with white space before it
      have hgap : ∀ (gap current : List Char), IsGap gap →
          ((.phrase (.gap gap) :: item :: spread room depth current rest).map Item.piece).foldl
            Piece.lay s = { s with atoms := s.atoms ++ (⟨item.text, true⟩ :: rest.map Spaced.atom) } := by
        intro gap current hgapText
        have hflow : (s.flow gap).IsFlow := hs.flow gap
        have hne : (!s.atoms.isEmpty) = true := by simpa using hatoms
        simp only [List.map_cons, List.foldl_cons]
        rw [Item.piece, Phrase.piece, Piece.lay_gap hs, Item.lay_inline hflow hitem hinline,
          ih current hrest (hflow.addAtom _) (by simp [State.addAtom]) rfl rfl,
          State.flow_blank s hgapText.2, if_pos hne]
        simp [State.addAtom, hpending, hafter]
      rw [spread]
      split
      · rename_i hspaced
        obtain rfl : spaced = false := by simpa using hspaced
        simp only [List.map_cons, List.foldl_cons]
        rw [Item.lay_inline hs hitem hinline,
          ih _ hrest (hs.addAtom _) (by simp [State.addAtom]) rfl rfl]
        simp [State.addAtom, hpending, hafter, Spaced.atom]
      · rename_i hspaced
        obtain rfl : spaced = true := by simpa using hspaced
        split
        · exact hgap _ _ (lineGap_wellFormed depth)
        · exact hgap _ _ softGap_wellFormed

end Folio.Markup
