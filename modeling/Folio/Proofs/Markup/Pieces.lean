import Folio.Markup.Prettify
import Folio.Markup.Reader
import Folio.Proofs.Markup.Flow
import Folio.Proofs.Text.Ink
import Mathlib.Data.List.Chain

/-!
# Texts in pieces

A text that is put together from plain text and whole constructs is read as the
tokens of its parts: plain text between two constructs becomes one data token,
and a construct the tokens that it stands for.  `ReadsAs` says of one construct that
this is so whatever stands around it, and `pass_plain` is the end of a text, after its
last construct.

A text is divided into words, gaps and constructs.  Where no two words and no two
gaps are adjacent the division is the reader's own: pretty-printing the text is
laying out its pieces one after the other, although the reader hands words and gaps
to the formatter in larger portions.  `prettify_textOf` is the statement.
-/

namespace Folio.Markup

open Text

/-! ## Plain text -/

/-- Text in which no markup begins. -/
def IsPlain (text : List Char) : Prop :=
  ∀ c ∈ text, c ≠ '<' ∧ c ≠ '&'

theorem isPlain_nil : IsPlain [] := by
  simp [IsPlain]

theorem IsPlain.append {s t : List Char} (hs : IsPlain s) (ht : IsPlain t) : IsPlain (s ++ t) := by
  intro c hc
  rcases List.mem_append.mp hc with hc | hc
  · exact hs c hc
  · exact ht c hc

/-- Where plain text ends, the reader looks for a construct. -/
theorem splitData_plain {front rest : List Char} (hfront : IsPlain front)
    (hrest : ∀ c ∈ rest.head?, c = '<' ∨ c = '&') :
    splitData .markup (front ++ rest) = some (front, rest) := by
  have hplain : ∀ c ∈ front, (c != '<' && c != '&') = true := fun c hc => by
    simpa using hfront c hc
  have hstop : rest.takeWhile (fun c => c != '<' && c != '&') = [] ∧
      rest.dropWhile (fun c => c != '<' && c != '&') = rest := by
    cases rest with
    | nil => exact ⟨rfl, rfl⟩
    | cons c rest =>
        have hc : (c != '<' && c != '&') = false := by
          rcases hrest c rfl with rfl | rfl <;> rfl
        exact ⟨List.takeWhile_cons_of_neg (by simp [hc]), List.dropWhile_cons_of_neg (by simp [hc])⟩
  simp only [splitData]
  rw [List.takeWhile_append_of_pos hplain, List.dropWhile_append_of_pos hplain, hstop.1, hstop.2,
    List.append_nil]

/-! ## Constructs -/

/-- `source` is read as the tokens `ts`, whatever plain text stands before it and
whatever follows it. -/
def ReadsAs (source : List Char) (ts : List Token) : Prop :=
  ∃ steps ≤ source.length, ∀ final fuel front rest, IsPlain front →
    pass final (fuel + steps) .markup (front ++ (source ++ rest)) =
      (pass final fuel .markup rest).map (Stopped.after (dataTokens front ++ ts))

theorem Stopped.after_after (ts us : List Token) (s : Stopped) :
    (s.after us).after ts = s.after (ts ++ us) := by
  simp [Stopped.after]

/-- The text of a construct that begins with `<`. -/
theorem readsAs_of_readMarkup {body : List Char} {ts : List Token}
    (h : ∀ rest, readMarkup .markup (body ++ rest) = .ok (some (.read ts .markup rest))) :
    ReadsAs ('<' :: body) ts := by
  refine ⟨1, by simp, ?_⟩
  intro final fuel front rest hfront
  have hsplit : splitData .markup (front ++ ('<' :: body ++ rest)) =
      some (front, '<' :: (body ++ rest)) :=
    splitData_plain hfront (by simp)
  simp only [pass, hsplit, h rest, bind, Except.bind, pure, Except.pure]
  cases pass final fuel .markup rest <;> rfl

/-- The text of a reference. -/
theorem readsAs_of_readReference {body : List Char} {ts : List Token}
    (h : ∀ final rest, readReference final (body ++ rest) = .read ts rest) :
    ReadsAs ('&' :: body) ts := by
  refine ⟨1, by simp, ?_⟩
  intro final fuel front rest hfront
  have hsplit : splitData .markup (front ++ ('&' :: body ++ rest)) =
      some (front, '&' :: (body ++ rest)) :=
    splitData_plain hfront (by simp)
  simp only [pass, hsplit, h final rest, bind, Except.bind, pure, Except.pure]
  cases pass final fuel .markup rest <;> rfl

/-! ## Whole texts -/

theorem pass_plain (final : Bool) (fuel : Nat) {back : List Char} (hback : IsPlain back) :
    pass final (fuel + 1) .markup back = .ok ⟨dataTokens back, .markup, []⟩ := by
  have hsplit : splitData .markup (back ++ []) = some (back, []) := splitData_plain hback (by simp)
  rw [List.append_nil] at hsplit
  simp only [pass, hsplit]

/-- A text that the first pass reads to its end. -/
theorem tokens_of_pass {text : List Char} {ts : List Token}
    (h : pass false (text.length + 1) .markup text = .ok ⟨ts, .markup, []⟩) :
    tokens text = .ok ts := by
  have hsecond := pass_plain true 0 isPlain_nil
  simp only [tokens, h, bind, Except.bind, List.length_nil, hsecond, pure, Except.pure]
  simp [dataTokens]

/-! ## Words -/

/-- A word of running text. -/
def IsWord (text : List Char) : Prop :=
  text ≠ [] ∧ ∀ c ∈ text, isBlank c = false ∧ c ≠ '<' ∧ c ≠ '&'

theorem isLayoutBlank_eq_false {c : Char} (hc : isBlank c = false) : isLayoutBlank c = false := by
  rw [Bool.eq_false_iff]
  intro hlayout
  rw [isBlank_of_isLayoutBlank hlayout] at hc
  cases hc

theorem IsWord.layout {word : List Char} (h : IsWord word) :
    ∀ c ∈ word, isLayoutBlank c = false :=
  fun c hc => isLayoutBlank_eq_false (h.2 c hc).1

theorem IsWord.plain {word : List Char} (h : IsWord word) : IsPlain word :=
  fun c hc => (h.2 c hc).2

theorem IsGap.plain {gap : List Char} (h : IsGap gap) : IsPlain gap := by
  intro c hc
  have hblank := h.2 c hc
  constructor <;> rintro rfl <;> simp [isLayoutBlank] at hblank

/-! ## States between pieces -/

/-- Nothing is open that is copied or collected. -/
def State.IsFlow (s : State) : Prop :=
  s.verbatim = none ∧ s.script = none

namespace State

theorem isFlow_start (width : Int) : (start width).IsFlow := ⟨rfl, rfl⟩

theorem IsFlow.step_data {s : State} (h : s.IsFlow) (text : List Char) :
    s.step (.data text) = s.flow text := by
  simp [step, State.text, h.1, h.2]

theorem IsFlow.addAtom {s : State} (h : s.IsFlow) (text : List Char) : (s.addAtom text).IsFlow :=
  h

theorem IsFlow.addWords {s : State} (h : s.IsFlow) (words : List (List Char)) :
    (s.addWords words).IsFlow := by
  cases words with
  | nil => exact h
  | cons first rest =>
      have hfold : ∀ (rest : List (List Char)) (t : State), t.IsFlow →
          (rest.foldl (fun t w => { t with spacePending := true }.addAtom w) t).IsFlow := by
        intro rest
        induction rest with
        | nil => exact fun t ht => ht
        | cons word rest ih => exact fun t ht => ih _ (IsFlow.addAtom (by exact ht) word)
      exact hfold rest _ (h.addAtom first)

theorem IsFlow.flow {s : State} (h : s.IsFlow) (text : List Char) : (s.flow text).IsFlow := by
  by_cases hwords : wordsBy isLayoutBlank text = []
  · rw [State.flow]
    simp only [hwords, List.isEmpty_nil, if_true]
    split <;> exact h
  · have hlead : (s.leadIn (text.takeWhile isLayoutBlank)).IsFlow := by
      unfold leadIn
      split
      · exact h
      · split <;> exact h
    rw [flow_of_words s hwords, trailOff]
    split <;> exact hlead.addWords _

end State

/-! ## Pieces -/

/-- A part of a text: a word, a gap, or a construct with the tokens that it is
read as. -/
inductive Piece
  | word (text : List Char)
  | gap (text : List Char)
  | markup (source : List Char) (ts : List Token)
  deriving Repr, DecidableEq

namespace Piece

/-- The characters of a piece. -/
def text : Piece → List Char
  | word text => text
  | gap text => text
  | markup source _ => source

/-- The tokens of a piece on its own. -/
def tokens : Piece → List Token
  | word text => [.data text]
  | gap text => [.data text]
  | markup _ ts => ts

/-- The state after a piece. -/
def lay (s : State) (piece : Piece) : State :=
  piece.tokens.foldl State.step s

/-- A piece that can be read on its own, and leaves nothing open. -/
def WellFormed : Piece → Prop
  | word text => IsWord text
  | gap text => IsGap text
  | markup source ts => ReadsAs source ts ∧ ∀ s, s.IsFlow → (ts.foldl State.step s).IsFlow

/-- Two pieces that can stand side by side without becoming one. -/
def Apart : Piece → Piece → Prop
  | word _, word _ => False
  | gap _, gap _ => False
  | _, _ => True

theorem lay_word {s : State} (h : s.IsFlow) {word : List Char} (hword : IsWord word) :
    lay s (.word word) = s.addAtom word := by
  rw [← s.flow_word hword.1 hword.layout, ← h.step_data]
  rfl

theorem lay_gap {s : State} (h : s.IsFlow) (gap : List Char) : lay s (.gap gap) = s.flow gap :=
  h.step_data gap

theorem isFlow_lay {s : State} (h : s.IsFlow) {piece : Piece} (hpiece : piece.WellFormed) :
    (lay s piece).IsFlow := by
  cases piece with
  | word text =>
      rw [lay_word h hpiece]
      exact h.addAtom text
  | gap text =>
      rw [lay_gap h]
      exact h.flow text
  | markup source ts => exact hpiece.2 s h

end Piece

/-- The text that pieces make up. -/
def textOf (pieces : List Piece) : List Char :=
  pieces.flatMap Piece.text

@[simp] theorem textOf_nil : textOf [] = [] := rfl

@[simp] theorem textOf_cons (piece : Piece) (pieces : List Piece) :
    textOf (piece :: pieces) = piece.text ++ textOf pieces := rfl

@[simp] theorem textOf_append (ps qs : List Piece) :
    textOf (ps ++ qs) = textOf ps ++ textOf qs :=
  List.flatMap_append

/-! ## Reading pieces -/

/-- The tokens of pieces after the plain text `front`: words and gaps that follow
one another make up one data token. -/
def spell : List Char → List Piece → List Token
  | front, [] => dataTokens front
  | front, .word text :: rest => spell (front ++ text) rest
  | front, .gap text :: rest => spell (front ++ text) rest
  | front, .markup _ ts :: rest => dataTokens front ++ ts ++ spell [] rest

/-- Pieces in front of a text that is read in a known way, whatever plain text stands
before it. -/
theorem pass_textOf {pieces : List Piece} (hpieces : ∀ p ∈ pieces, p.WellFormed) :
    ∃ steps ≤ (textOf pieces).length, ∀ final fuel tail (next : Except MarkupError Stopped),
      (∀ front, IsPlain front →
        pass final fuel .markup (front ++ tail) = next.map (Stopped.after (dataTokens front))) →
      ∀ front, IsPlain front →
        pass final (fuel + steps) .markup (front ++ (textOf pieces ++ tail)) =
          next.map (Stopped.after (spell front pieces)) := by
  induction pieces with
  | nil => exact ⟨0, Nat.zero_le _, fun final fuel tail next htail => htail⟩
  | cons piece rest ih =>
      obtain ⟨steps, hsteps, hrest⟩ := ih fun p hp => hpieces p (List.mem_cons_of_mem _ hp)
      have hpiece := hpieces piece (List.mem_cons_self ..)
      rw [textOf_cons, List.length_append]
      cases piece with
      | word text =>
          refine ⟨steps, by omega, ?_⟩
          intro final fuel tail next htail front hfront
          rw [List.append_assoc, ← List.append_assoc front]
          exact hrest final fuel tail next htail _ (hfront.append (IsWord.plain hpiece))
      | gap text =>
          refine ⟨steps, by omega, ?_⟩
          intro final fuel tail next htail front hfront
          rw [List.append_assoc, ← List.append_assoc front]
          exact hrest final fuel tail next htail _ (hfront.append (IsGap.plain hpiece))
      | markup source ts =>
          obtain ⟨n, hn, hread⟩ := hpiece.1
          refine ⟨steps + n, by simp only [Piece.text]; omega, ?_⟩
          intro final fuel tail next htail front hfront
          have hafter := hrest final fuel tail next htail [] isPlain_nil
          rw [List.nil_append] at hafter
          rw [List.append_assoc, ← Nat.add_assoc, Piece.text, hread final _ front _ hfront, hafter]
          cases next with
          | error e => rfl
          | ok stopped => simp only [Except.map, Stopped.after_after, spell]

/-- A construct, pieces and another construct make up one construct. -/
theorem readsAs_enclosed {source close : List Char} {ts us : List Token} {pieces : List Piece}
    (hsource : ReadsAs source ts) (hpieces : ∀ p ∈ pieces, p.WellFormed) (hclose : ReadsAs close us) :
    ReadsAs (source ++ (textOf pieces ++ close)) (ts ++ (spell [] pieces ++ us)) := by
  obtain ⟨n, hn, hsource⟩ := hsource
  obtain ⟨steps, hsteps, hpieces⟩ := pass_textOf hpieces
  obtain ⟨m, hm, hclose⟩ := hclose
  refine ⟨m + steps + n, by simp only [List.length_append]; omega, ?_⟩
  intro final fuel front rest hfront
  have hinner := hpieces final (fuel + m) (close ++ rest)
    ((pass final fuel .markup rest).map (Stopped.after us)) (by
      intro before hbefore
      rw [hclose final fuel before rest hbefore]
      cases pass final fuel .markup rest with
      | error e => rfl
      | ok stopped => simp only [Except.map, Stopped.after_after]) [] isPlain_nil
  rw [List.nil_append] at hinner
  rw [List.append_assoc, List.append_assoc, ← Nat.add_assoc, ← Nat.add_assoc,
    hsource final _ front _ hfront, hinner]
  cases pass final fuel .markup rest with
  | error e => rfl
  | ok stopped => simp only [Except.map, Stopped.after_after, List.append_assoc]

theorem tokens_textOf {pieces : List Piece} (hpieces : ∀ p ∈ pieces, p.WellFormed) :
    tokens (textOf pieces) = .ok (spell [] pieces) := by
  obtain ⟨steps, hsteps, hread⟩ := pass_textOf hpieces
  obtain ⟨fuel, hfuel⟩ : ∃ fuel, (textOf pieces).length + 1 = fuel + 1 + steps :=
    ⟨(textOf pieces).length - steps, by omega⟩
  have hpass := hread false (fuel + 1) [] (.ok ⟨[], .markup, []⟩) (by
    intro front hfront
    rw [List.append_nil, pass_plain false fuel hfront]
    simp [Except.map, Stopped.after]) [] isPlain_nil
  refine tokens_of_pass ?_
  rw [hfuel]
  simpa [Except.map, Stopped.after] using hpass

/-! ## Laying out pieces -/

/-- Plain text that can stand in front of pieces without changing the first. -/
def Joins (front : List Char) : List Piece → Prop
  | .word _ :: _ => front = [] ∨ ∃ before c, front = before ++ [c] ∧ isLayoutBlank c = true
  | .gap _ :: _ => front = [] ∨ ∃ before c, front = before ++ [c] ∧ isLayoutBlank c = false
  | _ => True

theorem joins_nil (pieces : List Piece) : Joins [] pieces := by
  unfold Joins
  split <;> simp

theorem joins_after_word {front word : List Char} {rest : List Piece} (hword : IsWord word)
    (hsep : (Piece.word word :: rest).IsChain Piece.Apart) : Joins (front ++ word) rest := by
  cases rest with
  | nil => trivial
  | cons next rest =>
      cases next with
      | word text => exact ((List.isChain_cons_cons.mp hsep).1).elim
      | markup source ts => trivial
      | gap text =>
          have hlast := List.dropLast_append_getLast hword.1
          refine .inr ⟨front ++ word.dropLast, word.getLast hword.1, ?_, ?_⟩
          · rw [List.append_assoc, hlast]
          · exact hword.layout _ (List.getLast_mem hword.1)

theorem joins_after_gap {front gap : List Char} {rest : List Piece} (hgap : IsGap gap)
    (hsep : (Piece.gap gap :: rest).IsChain Piece.Apart) : Joins (front ++ gap) rest := by
  cases rest with
  | nil => trivial
  | cons next rest =>
      cases next with
      | gap text => exact ((List.isChain_cons_cons.mp hsep).1).elim
      | markup source ts => trivial
      | word text =>
          have hlast := List.dropLast_append_getLast hgap.1
          refine .inr ⟨front ++ gap.dropLast, gap.getLast hgap.1, ?_, ?_⟩
          · rw [List.append_assoc, hlast]
          · exact hgap.2 _ (List.getLast_mem hgap.1)

/-- A data token can be laid out in two parts where the text can. -/
theorem foldl_dataTokens_append {s : State} (h : s.IsFlow) {front text : List Char}
    (hne : text ≠ [])
    (hflow : front = [] ∨ s.flow (front ++ text) = (s.flow front).flow text) :
    (dataTokens (front ++ text)).foldl State.step s =
      ((dataTokens front).foldl State.step s).step (.data text) := by
  have htokens : dataTokens (front ++ text) = [.data (front ++ text)] := by
    simp [dataTokens, hne]
  rw [htokens]
  by_cases hfront : front = []
  · subst hfront
    rfl
  · have hdata : dataTokens front = [.data front] := by simp [dataTokens, hfront]
    simp only [hdata, List.foldl_cons, List.foldl_nil]
    rw [h.step_data, h.step_data, (h.flow front).step_data, hflow.resolve_left hfront]

/-- The tokens of a text leave the state that its pieces leave. -/
theorem foldl_spell {pieces : List Piece} (hpieces : ∀ p ∈ pieces, p.WellFormed)
    (hsep : pieces.IsChain Piece.Apart) {s : State} (h : s.IsFlow) {front : List Char}
    (hjoins : Joins front pieces) :
    (spell front pieces).foldl State.step s =
      pieces.foldl Piece.lay ((dataTokens front).foldl State.step s) := by
  induction pieces generalizing s front with
  | nil => rfl
  | cons piece rest ih =>
      have hpiece := hpieces piece (List.mem_cons_self ..)
      have hrest : ∀ p ∈ rest, p.WellFormed := fun p hp => hpieces p (List.mem_cons_of_mem _ hp)
      have hsep' : rest.IsChain Piece.Apart := hsep.tail
      cases piece with
      | word text =>
          have hflow : front = [] ∨ s.flow (front ++ text) = (s.flow front).flow text :=
            hjoins.imp_right fun ⟨before, c, hfront, hc⟩ => by
              rw [hfront]
              exact s.flow_append_word hc hpiece.1 (IsWord.layout hpiece)
          rw [spell, ih hrest hsep' h (joins_after_word hpiece hsep),
            foldl_dataTokens_append h hpiece.1 hflow]
          rfl
      | gap text =>
          have hflow : front = [] ∨ s.flow (front ++ text) = (s.flow front).flow text :=
            hjoins.imp_right fun ⟨before, c, hfront, hc⟩ => by
              rw [hfront]
              exact s.flow_append_blank hc hpiece
          rw [spell, ih hrest hsep' h (joins_after_gap hpiece hsep),
            foldl_dataTokens_append h hpiece.1 hflow]
          rfl
      | markup source ts =>
          have hdata : ((dataTokens front).foldl State.step s).IsFlow := by
            unfold dataTokens
            split
            · exact h
            · rw [List.foldl_cons, List.foldl_nil, h.step_data]
              exact h.flow front
          rw [spell, List.foldl_append, List.foldl_append,
            ih hrest hsep' (hpiece.2 _ hdata) (joins_nil rest)]
          rfl

/-! ## Pretty-printing pieces -/

/-- The lines that pieces are laid out in. -/
def layPieces (width : Int) (pieces : List Piece) : List (List Char) :=
  (pieces.foldl Piece.lay (State.start width)).finish.lines

theorem prettify_textOf (width : Int) {pieces : List Piece} (hpieces : ∀ p ∈ pieces, p.WellFormed)
    (hsep : pieces.IsChain Piece.Apart) :
    prettify width (textOf pieces) = .ok (printLines (layPieces width pieces)) := by
  have hlay := foldl_spell hpieces hsep (State.isFlow_start width) (joins_nil pieces)
  rw [prettify, tokens_textOf hpieces]
  simp only [Except.map, layOut, layPieces, hlay]
  rfl

/-- Laying out pieces keeps to the flow. -/
theorem isFlow_foldl_lay {pieces : List Piece} (hpieces : ∀ p ∈ pieces, p.WellFormed) {s : State}
    (h : s.IsFlow) : (pieces.foldl Piece.lay s).IsFlow := by
  induction pieces generalizing s with
  | nil => exact h
  | cons piece rest ih =>
      exact ih (fun p hp => hpieces p (List.mem_cons_of_mem _ hp))
        (Piece.isFlow_lay h (hpieces piece (List.mem_cons_self ..)))

end Folio.Markup
