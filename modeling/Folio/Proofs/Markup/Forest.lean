import Folio.Proofs.Markup.Pieces
import Folio.Proofs.Markup.Tags
import Folio.Proofs.Markup.Writing

/-!
# The canonical layout

A document of block elements and running text has one layout, which does not depend
on the white space that it is written with.  `Forest` is such a document,
`Forest.Writes` relates it to every text that writes it, and `Forest.layout` gives
its lines: the tags of an element alone on lines at the depth of the element, the
content one level deeper, and words filled into lines.

`prettify_forest` says that pretty-printing a text of the document prints its
layout.  The proof divides the text into pieces, and follows the formatter over them
by induction on the forest: between two items the state is *calm*, that is, no blank
line is wanted, and ending the inline run that may be pending adds the lines of the
items so far.
-/

namespace Folio.Markup

open Text

/-! ## Filling lines with words -/

/-- Lines filled with words, the first line being begun: a word goes on the line as
long as it fits. -/
def fillLine (room : Nat) : List Char → List (List Char) → List (List Char)
  | line, [] => [line]
  | line, word :: rest =>
      if line.length + 1 + word.length ≤ room then fillLine room (line ++ ' ' :: word) rest
      else line :: fillLine room word rest

/-- Words filled into lines. -/
def fillWords (room : Nat) : List (List Char) → List (List Char)
  | [] => []
  | word :: rest => fillLine room word rest

/-- The lines are the words, in order and with one space between two words of a
line; a line fits unless it is a single word, and ends only where the next word
would not fit. -/
inductive Filled (room : Nat) : List (List Char) → List (List Char) → Prop
  | nil : Filled room [] []
  | line {words rest lines : List (List Char)} (hne : words ≠ [])
      (hfits : words.length = 1 ∨ (joinWith [' '] words).length ≤ room)
      (hnext : ∀ next ∈ rest.head?, room < (joinWith [' '] (words ++ [next])).length)
      (hrest : Filled room rest lines) : Filled room (words ++ rest) (joinWith [' '] words :: lines)

theorem joinWith_concat {words : List (List Char)} (hne : words ≠ []) (mark word : List Char) :
    joinWith mark (words ++ [word]) = joinWith mark words ++ (mark ++ word) := by
  induction words with
  | nil => exact absurd rfl hne
  | cons first rest ih =>
      cases rest with
      | nil => simp [joinWith]
      | cons second rest =>
          have hrest := ih (List.cons_ne_nil _ _)
          simp only [joinWith, List.cons_append, List.intersperse_cons_cons, List.flatten_cons] at hrest ⊢
          rw [hrest]
          simp

theorem filled_fillLine (room : Nat) {words : List (List Char)} (hne : words ≠ [])
    (hfits : words.length = 1 ∨ (joinWith [' '] words).length ≤ room)
    (rest : List (List Char)) :
    Filled room (words ++ rest) (fillLine room (joinWith [' '] words) rest) := by
  induction rest generalizing words with
  | nil => exact .line hne hfits (by simp) .nil
  | cons next rest ih =>
      have hjoin := joinWith_concat hne [' '] next
      rw [fillLine]
      split
      · rename_i hroom
        have hnext : (joinWith [' '] (words ++ [next])).length ≤ room := by
          rw [hjoin]
          simp only [List.length_append, List.length_singleton]
          omega
        have hmore : words ++ [next] ≠ [] := by simp
        have hfilled := ih hmore (.inr hnext)
        rw [hjoin] at hfilled
        simpa using hfilled
      · rename_i hroom
        have hsingle : joinWith [' '] [next] = next := by simp [joinWith]
        have hrest := ih (List.cons_ne_nil next []) (.inl rfl)
        rw [hsingle] at hrest
        refine .line hne hfits ?_ hrest
        intro word hword
        obtain rfl : next = word := by simpa using hword
        rw [hjoin]
        simp only [List.length_append, List.length_singleton]
        omega

/-- Words are filled into lines greedily. -/
theorem filled_fillWords (room : Nat) (words : List (List Char)) :
    Filled room words (fillWords room words) := by
  cases words with
  | nil => exact .nil
  | cons word rest =>
      have hsingle : joinWith [' '] [word] = word := by simp [joinWith]
      have hfilled := filled_fillLine room (List.cons_ne_nil word []) (.inl rfl) rest
      rwa [hsingle] at hfilled

/-! ## Documents -/

/-- The name of an element that is a block with content of its own. -/
structure IsBlockName (name : List Char) : Prop where
  tag : IsTagName name
  lower : lower name = name
  not_void : voidElements.contains (String.ofList name) = false
  not_inline : inlineElements.contains (String.ofList name) = false
  not_verbatim : verbatimElements.contains (String.ofList name) = false
  not_script : scriptElements.contains (String.ofList name) = false

/-- Block elements and runs of words, one after the other; `rest` is what follows an
item among its siblings. -/
inductive Forest
  | nil
  | block (name : List Char) (children rest : Forest)
  | run (words : List (List Char)) (rest : Forest)
  deriving Repr, DecidableEq

namespace Forest

/-- Whether the first item is a run of words. -/
def beginsWithRun : Forest → Bool
  | run _ _ => true
  | _ => false

/-- Blocks are blocks, runs have words, and no run stands next to another. -/
def WellFormed : Forest → Prop
  | nil => True
  | block name children rest => IsBlockName name ∧ children.WellFormed ∧ rest.WellFormed
  | run words rest =>
      words ≠ [] ∧ (∀ word ∈ words, IsWord word) ∧ rest.beginsWithRun = false ∧ rest.WellFormed

/-- The start tag of an element without attributes. -/
def opening (name : List Char) : List Char :=
  '<' :: (name ++ ['>'])

/-- White space between items, with fewer than two line ends. -/
def IsLoose (gap : List Char) : Prop :=
  IsSpace gap ∧ gap.count '\n' < 2

/-- The texts of a run: the words in order, with white space between each two. -/
inductive WritesWords : List (List Char) → List Char → Prop
  | single (word : List Char) : WritesWords [word] word
  | cons {word gap text : List Char} {words : List (List Char)} (hgap : IsGap gap)
      (hrest : WritesWords words text) : WritesWords (word :: words) (word ++ (gap ++ text))

/-- The texts of a document. -/
inductive Writes : Forest → List Char → Prop
  | nil {gap : List Char} (hgap : IsLoose gap) : Writes .nil gap
  | block {name gap inner after : List Char} {children rest : Forest} (hgap : IsLoose gap)
      (hchildren : Writes children inner) (hrest : Writes rest after) :
      Writes (.block name children rest)
        (gap ++ (opening name ++ (inner ++ (closing (String.ofList name) ++ after))))
  | run {gap text after : List Char} {words : List (List Char)} {rest : Forest}
      (hgap : IsLoose gap) (hwords : WritesWords words text) (hrest : Writes rest after) :
      Writes (.run words rest) (gap ++ (text ++ after))

/-- The lines of a document at a depth. -/
def layout (width : Int) (depth : Nat) : Forest → List (List Char)
  | nil => []
  | block name children rest =>
      (indent depth ++ opening name) :: (layout width (depth + 1) children ++
        (indent depth ++ closing (String.ofList name)) :: layout width depth rest)
  | run words rest =>
      (fillWords (room width depth) words).map (indent depth ++ ·) ++ layout width depth rest

end Forest

/-! ## Calm states -/

/-- A state in which no blank line is wanted. -/
structure Calm (s : State) : Prop where
  flow : s.IsFlow
  wanted : s.blankWanted = false
  after : s.blankAfter = false
  atoms : ∀ a ∈ s.atoms, a.text ≠ []

/-- Ending the inline run of a calm state. -/
theorem Calm.flush {s : State} (h : Calm s) :
    s.flush = { s with
      lines := s.lines ++ (wrap s.width s.depth s.atoms).map (indent s.depth ++ ·),
      atoms := [], spacePending := false } := by
  by_cases hatoms : s.atoms = []
  · rw [State.flush_of_no_atoms hatoms, ← h.after]
    simp [hatoms, wrap, fill]
  · rw [State.flush_of_atoms hatoms h.atoms, State.gapLine_of_not_wanted h.wanted, h.after,
      ← h.wanted, List.append_nil]

/-- A loose gap does not change what ending the run gives. -/
theorem flow_loose (s : State) {gap : List Char} (hgap : Forest.IsLoose gap) :
    ∃ pending, s.flow gap = { s with spacePending := pending } ∧
      (s.atoms = [] → pending = s.spacePending) := by
  have hfew : State.hasBlankLine gap = false := by
    have hcount := hgap.2
    simp [State.hasBlankLine]
    omega
  rw [s.flow_blank hgap.1, hfew, Bool.or_false, Bool.or_false]
  split
  · rename_i hatoms
    exact ⟨true, rfl, fun hnil => by simp [hnil] at hatoms⟩
  · exact ⟨s.spacePending, rfl, fun _ => rfl⟩

theorem Calm.with_pending {s : State} (h : Calm s) (pending : Bool) :
    Calm { s with spacePending := pending } :=
  ⟨h.flow, h.wanted, h.after, h.atoms⟩

theorem Calm.flush_with_pending {s : State} (h : Calm s) (pending : Bool) :
    ({ s with spacePending := pending } : State).flush = s.flush := by
  rw [(h.with_pending pending).flush, h.flush]

/-! ## Blocks -/

theorem openTag_block {name : List Char} (h : IsBlockName name) {s : State} (hs : s.IsFlow)
    (source : List Char) :
    s.openTag (String.ofList name) source =
      { s.flush.emit source with
        stack := String.ofList name :: (s.flush.emit source).stack
        depth := (s.flush.emit source).depth + 1 } := by
  simp only [State.openTag, hs.1, h.not_verbatim, h.not_script, h.not_inline, h.not_void,
    Bool.false_eq_true, if_false]

theorem closeTag_block {name : List Char} (h : IsBlockName name) {s : State} (hs : s.IsFlow) :
    s.closeTag (String.ofList name) =
      (s.flush.closeElement (String.ofList name)).emit (closing (String.ofList name)) := by
  simp only [State.closeTag, hs.1, hs.2, h.not_inline, h.not_void, Bool.or_self,
    Bool.false_eq_true, if_false]

/-- The tag that opens a block, as a piece. -/
def openPiece (name : List Char) : Piece :=
  .markup (Forest.opening name) [.startTag (String.ofList name) (Forest.opening name)]

/-- The tag that closes a block, as a piece. -/
def closePiece (name : List Char) : Piece :=
  .markup (closing (String.ofList name)) [.endTag (String.ofList name)]

theorem openPiece_wellFormed {name : List Char} (h : IsBlockName name) :
    (openPiece name).WellFormed := by
  let t : Tag := ⟨name, [], [], false⟩
  have ht : t.WellFormed := ⟨h.tag, by simp [t], by simp [t, IsSpace]⟩
  have htext : t.text = Forest.opening name := rfl
  have helement : t.element = String.ofList name := by rw [Tag.element, h.lower]
  have hcontext : t.context = .markup := by
    have hscript : rawTextElements.contains (String.ofList name) = false := h.not_script
    rw [Tag.context, helement, hscript]
    rfl
  have hreads := ht.readsAs hcontext
  have htoken : t.token = .startTag (String.ofList name) (Forest.opening name) := by
    rw [Tag.token, htext, helement]
    rfl
  rw [htext, htoken] at hreads
  refine ⟨hreads, fun s hs => ?_⟩
  obtain ⟨lines, wanted, hflush, -⟩ := s.flush_spec
  simp only [List.foldl_cons, List.foldl_nil, State.step, openTag_block h hs, State.emit_eq, hflush]
  exact hs

theorem closePiece_wellFormed {name : List Char} (h : IsBlockName name) :
    (closePiece name).WellFormed := by
  refine ⟨readsAs_endTag h.tag h.lower, fun s hs => ?_⟩
  obtain ⟨lines, wanted, hflush, -⟩ := s.flush_spec
  simp only [List.foldl_cons, List.foldl_nil, State.step, closeTag_block h hs, State.emit_eq,
    hflush, State.closeElement]
  split <;> exact hs

/-! ## Forests in pieces -/

/-- The pieces of a gap, which may be empty. -/
def gapPieces (gap : List Char) : List Piece :=
  if gap.isEmpty then [] else [.gap gap]

theorem textOf_gapPieces (gap : List Char) : textOf (gapPieces gap) = gap := by
  unfold gapPieces
  split
  · rename_i h
    rw [List.isEmpty_iff.mp h]
    rfl
  · simp [Piece.text]

/-- What the induction keeps of a text of a forest: its pieces, that they are read as
they stand, and that laying them out adds the layout to the lines.  Words may follow
a pending run only in that run, hence the condition on a forest that begins with one. -/
structure Spells (f : Forest) (text : List Char) (pieces : List Piece) : Prop where
  text : textOf pieces = text
  wellFormed : ∀ p ∈ pieces, p.WellFormed
  apart : pieces.IsChain Piece.Apart
  head : f.beginsWithRun = false → ∀ word, pieces.head? ≠ some (.word word)
  lay : ∀ s, Calm s → (f.beginsWithRun = true → s.atoms = []) →
    (pieces.foldl Piece.lay s).flush =
      { s.flush with lines := s.flush.lines ++ f.layout s.width s.depth }

section

variable {gap : List Char} (hgap : Forest.IsLoose gap)

include hgap

theorem gapPieces_wellFormed : ∀ p ∈ gapPieces gap, p.WellFormed := by
  intro p hp
  unfold gapPieces at hp
  split at hp
  · cases hp
  · rename_i h
    obtain rfl := List.mem_singleton.mp hp
    exact ⟨by simpa using h, hgap.1⟩

theorem foldl_gapPieces {s : State} (h : Calm s) :
    ∃ pending, (gapPieces gap).foldl Piece.lay s = { s with spacePending := pending } := by
  unfold gapPieces
  split
  · exact ⟨s.spacePending, rfl⟩
  · obtain ⟨pending, hpending, -⟩ := flow_loose s hgap
    exact ⟨pending, by simp only [List.foldl_cons, List.foldl_nil, Piece.lay_gap h.flow, hpending]⟩

end

/-- Pieces after a construct, whatever stands before it. -/
theorem isChain_append_markup {ps qs : List Piece} (hps : ps.IsChain Piece.Apart)
    (hqs : qs.IsChain Piece.Apart) (source : List Char) (ts : List Token) :
    (ps ++ .markup source ts :: qs).IsChain Piece.Apart := by
  have hhead : (Piece.markup source ts :: qs).IsChain Piece.Apart := by
    cases qs with
    | nil => exact List.isChain_singleton _
    | cons q qs => exact List.isChain_cons_cons.mpr ⟨trivial, hqs⟩
  refine List.isChain_append.mpr ⟨hps, hhead, ?_⟩
  intro x hx y hy
  obtain rfl : Piece.markup source ts = y := by simpa using hy
  cases x <;> trivial

theorem isChain_gapPieces (gap : List Char) : (gapPieces gap).IsChain Piece.Apart := by
  unfold gapPieces
  split
  · exact List.isChain_nil
  · exact List.isChain_singleton _

/-! ## Runs -/

/-- The atoms of words that white space separates. -/
def atomsOf (pending : Bool) : List (List Char) → List Atom
  | [] => []
  | word :: rest => ⟨word, pending⟩ :: rest.map fun w => ⟨w, true⟩

/-- The lines of a run are its words, filled. -/
theorem fill_atoms (room : Nat) {line : List Char} (hline : line ≠ []) {words : List (List Char)}
    (hwords : ∀ w ∈ words, w ≠ []) :
    fill room line (words.map fun w => ⟨w, true⟩) = fillLine room line words := by
  induction words generalizing line with
  | nil => simp [fill, fillLine, hline]
  | cons word rest ih =>
      have hrest : ∀ w ∈ rest, w ≠ [] := fun w hw => hwords w (List.mem_cons_of_mem _ hw)
      rw [List.map_cons, fill, if_neg (by simpa using hline), if_neg (by simp), fillLine]
      dsimp only
      split
      · rename_i hroom
        rw [if_neg (by omega), ih (hwords word (List.mem_cons_self ..)) hrest]
      · rename_i hroom
        rw [if_pos (by omega), ih (by simp) hrest]

theorem wrap_atomsOf (width : Int) (depth : Nat) (pending : Bool) {words : List (List Char)}
    (hwords : ∀ w ∈ words, w ≠ []) :
    wrap width depth (atomsOf pending words) = fillWords (room width depth) words := by
  cases words with
  | nil => rfl
  | cons word rest =>
      rw [wrap, atomsOf, fill, if_pos List.isEmpty_nil, fillWords]
      exact fill_atoms _ (hwords word (List.mem_cons_self ..)) fun w hw =>
        hwords w (List.mem_cons_of_mem _ hw)

/-- The pieces of a run, and what they add to the atoms. -/
theorem exists_pieces_of_writesWords {words : List (List Char)} {text : List Char}
    (h : Forest.WritesWords words text) (hwords : ∀ w ∈ words, IsWord w) :
    ∃ pieces, textOf pieces = text ∧ (∀ p ∈ pieces, p.WellFormed) ∧
      pieces.IsChain Piece.Apart ∧ (∃ word, pieces.head? = some (.word word)) ∧
      (∃ word, pieces.getLast? = some (.word word)) ∧
      ∀ s : State, s.IsFlow → pieces.foldl Piece.lay s =
        { s with atoms := s.atoms ++ atomsOf s.spacePending words,
                 spacePending := false, blankAfter := false } := by
  induction h with
  | single word =>
      refine ⟨[.word word], by simp [Piece.text], ?_, List.isChain_singleton _, ⟨word, rfl⟩,
        ⟨word, rfl⟩, fun s hs => ?_⟩
      · intro p hp
        obtain rfl := List.mem_singleton.mp hp
        exact hwords word (List.mem_cons_self ..)
      · rw [List.foldl_cons, List.foldl_nil, Piece.lay_word hs (hwords word (by simp))]
        rfl
  | @cons word gap text words hgap hrest ih =>
      obtain ⟨pieces, htext, hwf, hchain, ⟨first, hhead⟩, ⟨last, hlast⟩, hlay⟩ :=
        ih fun w hw => hwords w (List.mem_cons_of_mem _ hw)
      have hword : IsWord word := hwords word (List.mem_cons_self ..)
      obtain ⟨tail, rfl⟩ : ∃ tail, pieces = .word first :: tail :=
        List.head?_eq_some_iff.mp hhead
      refine ⟨.word word :: .gap gap :: .word first :: tail, by simp [Piece.text, ← htext], ?_, ?_,
        ⟨word, rfl⟩, ⟨last, by simpa using hlast⟩, fun s hs => ?_⟩
      · intro p hp
        rcases List.mem_cons.mp hp with rfl | hp
        · exact hword
        rcases List.mem_cons.mp hp with rfl | hp
        · exact hgap
        · exact hwf p hp
      · exact List.isChain_cons_cons.mpr ⟨trivial, List.isChain_cons_cons.mpr ⟨trivial, hchain⟩⟩
      · -- the gap may ask for a blank line after the run, but the next word takes that back
        have hflow : ((s.addAtom word).flow gap).IsFlow := (hs.addAtom word).flow gap
        rw [List.foldl_cons, List.foldl_cons, Piece.lay_word hs hword,
          Piece.lay_gap (hs.addAtom word), hlay _ hflow, State.flow_blank _ hgap.2]
        obtain ⟨w, ws, rfl⟩ : ∃ w ws, words = w :: ws := by
          cases hrest <;> exact ⟨_, _, rfl⟩
        simp [State.addAtom, atomsOf]

/-! ## The induction on the forest -/

section

variable {gap : List Char} (hgap : Forest.IsLoose gap)

include hgap

theorem spells_nil : Spells .nil gap (gapPieces gap) where
  text := textOf_gapPieces gap
  wellFormed := gapPieces_wellFormed hgap
  apart := isChain_gapPieces gap
  head _ word := by
    unfold gapPieces
    split <;> simp
  lay s hs _ := by
    obtain ⟨pending, hpending⟩ := foldl_gapPieces hgap hs
    rw [hpending, hs.flush_with_pending pending]
    simp [Forest.layout]

theorem spells_run {words : List (List Char)} {text after : List Char} {rest : Forest}
    {pieces : List Piece} (hne : words ≠ []) (hwords : ∀ w ∈ words, IsWord w)
    (hbegins : rest.beginsWithRun = false) (htext : Forest.WritesWords words text)
    (hrest : Spells rest after pieces) :
    ∃ pieces, Spells (.run words rest) (gap ++ (text ++ after)) pieces := by
  obtain ⟨run, hrun, hwf, hchain, ⟨first, hfirst⟩, ⟨last, hlast⟩, hlay⟩ :=
    exists_pieces_of_writesWords htext hwords
  refine ⟨gapPieces gap ++ (run ++ pieces), ?_, ?_, ?_, by simp [Forest.beginsWithRun], ?_⟩
  · rw [textOf_append, textOf_append, textOf_gapPieces, hrun, hrest.text]
  · intro p hp
    rcases List.mem_append.mp hp with hp | hp
    · exact gapPieces_wellFormed hgap p hp
    rcases List.mem_append.mp hp with hp | hp
    · exact hwf p hp
    · exact hrest.wellFormed p hp
  · have htail : (run ++ pieces).IsChain Piece.Apart := by
      refine List.isChain_append.mpr ⟨hchain, hrest.apart, fun x hx y hy => ?_⟩
      obtain rfl : Piece.word last = x := by simpa [hlast] using hx
      cases y with
      | word text => exact absurd hy (hrest.head hbegins text)
      | gap text => trivial
      | markup source ts => trivial
    refine List.isChain_append.mpr ⟨isChain_gapPieces gap, htail, fun x hx y hy => ?_⟩
    obtain rfl : Piece.word first = y := by
      simpa [List.head?_append, hfirst] using hy
    unfold gapPieces at hx
    split at hx
    · cases hx
    · obtain rfl : Piece.gap gap = x := by simpa using hx
      trivial
  · intro s hs hatoms
    have hnil : s.atoms = [] := hatoms rfl
    obtain ⟨pending, hpending⟩ := foldl_gapPieces hgap hs
    have hnonempty : ∀ w ∈ words, w ≠ [] := fun w hw => (hwords w hw).1
    have hcalm : Calm { s with
        atoms := atomsOf pending words, spacePending := false, blankAfter := false } := by
      refine ⟨hs.flow, hs.wanted, rfl, fun a ha => ?_⟩
      obtain ⟨w, ws, rfl⟩ := List.exists_cons_of_ne_nil hne
      rcases List.mem_cons.mp ha with rfl | ha
      · exact hnonempty w (List.mem_cons_self ..)
      · obtain ⟨v, hv, rfl⟩ := List.mem_map.mp ha
        exact hnonempty v (List.mem_cons_of_mem _ hv)
    rw [List.foldl_append, hpending, List.foldl_append,
      hlay { s with spacePending := pending } hs.flow]
    simp only [hnil, List.nil_append]
    rw [hrest.lay _ hcalm (by simp [hbegins]), hcalm.flush, hs.flush, hs.after]
    simp only [wrap_atomsOf _ _ pending hnonempty, Forest.layout, hnil]
    simp [wrap, fill]

theorem spells_block {name inner after : List Char} {children rest : Forest}
    {innerPieces restPieces : List Piece} (hname : IsBlockName name)
    (hchildren : Spells children inner innerPieces) (hrest : Spells rest after restPieces) :
    ∃ pieces, Spells (.block name children rest) (gap ++ (Forest.opening name ++
      (inner ++ (closing (String.ofList name) ++ after)))) pieces := by
  refine ⟨gapPieces gap ++ openPiece name :: (innerPieces ++ closePiece name :: restPieces),
    ?_, ?_, ?_, ?_, ?_⟩
  · simp [textOf_gapPieces, hchildren.text, hrest.text, openPiece, closePiece, Piece.text]
  · intro p hp
    simp only [List.mem_append, List.mem_cons] at hp
    rcases hp with hp | rfl | hp | rfl | hp
    · exact gapPieces_wellFormed hgap p hp
    · exact openPiece_wellFormed hname
    · exact hchildren.wellFormed p hp
    · exact closePiece_wellFormed hname
    · exact hrest.wellFormed p hp
  · exact isChain_append_markup (isChain_gapPieces gap)
      (isChain_append_markup hchildren.apart hrest.apart _ _) _ _
  · intro _ word
    unfold gapPieces
    split <;> simp [openPiece]
  · intro s hs _
    obtain ⟨pending, hpending⟩ := foldl_gapPieces hgap hs
    have hflow : ({ s with spacePending := pending } : State).IsFlow := hs.flow
    have hwanted := hs.wanted
    -- the state inside the element
    let before := s.lines ++ (wrap s.width s.depth s.atoms).map (indent s.depth ++ ·)
    let inside : State := { s with
      lines := before ++ [indent s.depth ++ Forest.opening name], atoms := [],
      spacePending := false, stack := String.ofList name :: s.stack, depth := s.depth + 1 }
    have hopen : Piece.lay { s with spacePending := pending } (openPiece name) = inside := by
      have hgapLine : s.flush.gapLine = [] := by
        rw [hs.flush]
        exact State.gapLine_of_not_wanted hwanted
      change ({ s with spacePending := pending } : State).openTag _ _ = _
      rw [openTag_block hname hflow, hs.flush_with_pending pending, State.emit_eq, hgapLine, hs.flush]
      simp [inside, before, hwanted]
    have hinside : Calm inside := ⟨hs.flow, hwanted, hs.after, by simp [inside]⟩
    have hlay := hchildren.lay inside hinside fun _ => rfl
    have hinner : (innerPieces.foldl Piece.lay inside).IsFlow :=
      isFlow_foldl_lay hchildren.wellFormed hinside.flow
    -- the state behind the element
    let behind : State := { s with
      lines := before ++ (indent s.depth ++ Forest.opening name) ::
        (children.layout s.width (s.depth + 1) ++
          [indent s.depth ++ closing (String.ofList name)])
      atoms := [], spacePending := false }
    have hclose : Piece.lay (innerPieces.foldl Piece.lay inside) (closePiece name) = behind := by
      change (innerPieces.foldl Piece.lay inside).closeTag _ = _
      rw [closeTag_block hname hinner, hlay, hinside.flush]
      simp [State.closeElement, State.emit_eq, State.gapLine_of_not_wanted, inside, behind, hwanted,
        wrap, fill]
    have hbehind : Calm behind := ⟨hs.flow, hwanted, hs.after, by simp [behind]⟩
    rw [List.foldl_append, hpending, List.foldl_cons, hopen, List.foldl_append, List.foldl_cons,
      hclose, hrest.lay behind hbehind fun _ => rfl, hbehind.flush, hs.flush]
    simp [Forest.layout, behind, before, wrap, fill]

end

/-- Every text of a forest spells it out. -/
theorem exists_spells {f : Forest} (hf : f.WellFormed) {text : List Char} (h : f.Writes text) :
    ∃ pieces, Spells f text pieces := by
  induction h with
  | nil hgap => exact ⟨_, spells_nil hgap⟩
  | block hgap _ _ ihchildren ihrest =>
      obtain ⟨hname, hchildren, hrest⟩ := hf
      obtain ⟨innerPieces, hinner⟩ := ihchildren hchildren
      obtain ⟨restPieces, hrest⟩ := ihrest hrest
      exact spells_block hgap hname hinner hrest
  | run hgap hwords _ ih =>
      obtain ⟨hne, hwf, hbegins, hrest⟩ := hf
      obtain ⟨pieces, hpieces⟩ := ih hrest
      exact spells_run hgap hne hwf hbegins hwords hpieces

/-! ## Printing -/

/-- A line that is filled with words has ink. -/
theorem not_blank_of_filled {room : Nat} {words lines : List (List Char)}
    (h : Filled room words lines) (hwords : ∀ w ∈ words, IsWord w) :
    ∀ line ∈ lines, isEmptyLine line = false := by
  induction h with
  | nil => simp
  | @line words rest lines hne _ _ _ ih =>
      intro line hline
      rcases List.mem_cons.mp hline with rfl | hline
      · obtain ⟨word, others, rfl⟩ := List.exists_cons_of_ne_nil hne
        have hword := hwords word (by simp)
        obtain ⟨c, tail, htail⟩ := List.exists_cons_of_ne_nil hword.1
        have hmem : c ∈ joinWith [' '] (word :: others) := by
          rw [htail]
          cases others <;> simp [joinWith]
        exact not_blank_of_mem hmem (hword.2 c (by simp [htail])).1
      · exact ih (fun w hw => hwords w (List.mem_append_right _ hw)) line hline

theorem layout_not_blank (width : Int) (depth : Nat) {f : Forest} (hf : f.WellFormed) :
    ∀ line ∈ f.layout width depth, isEmptyLine line = false := by
  induction f generalizing depth with
  | nil => simp [Forest.layout]
  | block name children rest ihchildren ihrest =>
      obtain ⟨hname, hchildren, hrest⟩ := hf
      intro line hline
      simp only [Forest.layout, List.mem_cons, List.mem_append] at hline
      rcases hline with rfl | hline | rfl | hline
      · exact not_blank_of_mem (c := '<') (by simp [Forest.opening]) (by decide)
      · exact ihchildren (depth + 1) hchildren line hline
      · exact not_blank_of_mem (c := '<') (by simp [closing]) (by decide)
      · exact ihrest depth hrest line hline
  | run words rest ih =>
      obtain ⟨hne, hwords, -, hrest⟩ := hf
      intro line hline
      rcases List.mem_append.mp hline with hline | hline
      · obtain ⟨filled, hfilled, rfl⟩ := List.mem_map.mp hline
        have hblank := not_blank_of_filled (filled_fillWords _ words) hwords filled hfilled
        rw [isEmptyLine, List.all_append]
        rw [isEmptyLine] at hblank
        rw [hblank, Bool.and_false]
      · exact ih depth hrest line hline

/-- Every text of a document is printed as the layout of the document. -/
theorem prettify_forest (width : Int) {f : Forest} (hf : f.WellFormed) {text : List Char}
    (h : f.Writes text) :
    prettify width text = .ok (joinWith ['\n'] (f.layout width 0) ++ ['\n']) := by
  obtain ⟨pieces, hpieces⟩ := exists_spells hf h
  have hcalm : Calm (State.start width) := ⟨State.isFlow_start width, rfl, rfl, by simp [State.start]⟩
  have hflow := isFlow_foldl_lay hpieces.wellFormed hcalm.flow
  have hfinish : (pieces.foldl Piece.lay (State.start width)).finish =
      (pieces.foldl Piece.lay (State.start width)).flush := by
    simp only [State.finish, hflow.1, hflow.2]
  have hink := layout_not_blank width 0 hf
  have hlines : layPieces width pieces = f.layout width 0 := by
    rw [layPieces, hfinish, hpieces.lay _ hcalm fun _ => rfl, hcalm.flush]
    simp [State.start, wrap, fill]
  rw [← hpieces.text, prettify_textOf width hpieces.wellFormed hpieces.apart, hlines, printLines,
    trimLines_of_ends (fun line hline => hink line (List.mem_of_mem_head? hline))
      fun line hline => hink line (List.mem_of_getLast? hline)]

/-- A list with one entry of two words. -/
def entryList : Forest :=
  .block "ul".toList (.block "li".toList (.run ["one".toList, "two".toList] .nil) .nil) .nil

theorem prettify_forest_entryList :
    entryList.WellFormed ∧ entryList.Writes "<ul>\n\t<li>one\n\ntwo </li></ul>".toList ∧
      prettify 40 "<ul>\n\t<li>one\n\ntwo </li></ul>".toList =
        .ok "<ul>\n  <li>\n    one two\n  </li>\n</ul>\n".toList := by
  have htag : ∀ c d : Char, isLetter c = true → isTagNameChar c = true ∧ isBlank c = false →
      isTagNameChar d = true ∧ isBlank d = false → IsTagName [c, d] := fun c d hc hc' hd =>
    ⟨⟨c, [d], rfl, hc⟩, by simp [hc', hd]⟩
  have hul : IsBlockName "ul".toList :=
    ⟨htag 'u' 'l' (by decide) (by decide) (by decide), by decide, by decide, by decide, by decide,
      by decide⟩
  have hli : IsBlockName "li".toList :=
    ⟨htag 'l' 'i' (by decide) (by decide) (by decide), by decide, by decide, by decide, by decide,
      by decide⟩
  have hwords : ∀ word ∈ ["one".toList, "two".toList], IsWord word := by
    simp [IsWord, isBlank]
  have hf : entryList.WellFormed :=
    ⟨hul, ⟨hli, ⟨by simp, hwords, rfl, trivial⟩, trivial⟩, trivial⟩
  have hnone : Forest.Writes .nil [] := .nil ⟨by simp [IsSpace], by decide⟩
  have hloose : Forest.IsLoose [] := ⟨by simp [IsSpace], by decide⟩
  have hline : Forest.IsLoose ['\n', '\t'] := ⟨by simp [IsSpace, isLayoutBlank], by decide⟩
  have hspace : Forest.Writes .nil [' '] := .nil ⟨by simp [IsSpace, isLayoutBlank], by decide⟩
  have hbreak : IsGap ['\n', '\n'] := by simp [IsGap, isLayoutBlank]
  have htext : Forest.WritesWords ["one".toList, "two".toList] "one\n\ntwo".toList :=
    Forest.WritesWords.cons hbreak (.single "two".toList)
  have hwrites : entryList.Writes "<ul>\n\t<li>one\n\ntwo </li></ul>".toList :=
    .block hloose (.block hline (.run hloose htext hspace) hnone) hnone
  exact ⟨hf, hwrites, (prettify_forest 40 hf hwrites).trans (congrArg Except.ok (by decide))⟩

end Folio.Markup
