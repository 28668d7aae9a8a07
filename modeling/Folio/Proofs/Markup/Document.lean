import Folio.Proofs.Markup.Reindent
import Folio.Proofs.Markup.Pieces
import Folio.Proofs.Markup.Tags

/-!
# Well-formed documents

The grammar of complete documents: words and white space, references that end in a
semicolon, complete tags, comments, document types, verbatim elements and script
elements.  Blocks need not be balanced.

`Item.piece_wellFormed` says that an item is read as a whole.  How it is laid out is
one of three things: `lay_inline` adds an atom, `lay_gap` is white space, and
`lay_block` ends the inline run and writes the lines of the item.
-/

namespace Folio.Markup

open Text

/-! ## References -/

/-- A reference to a character, by the name of an entity or by a code. -/
inductive CharRef
  | entity (name : List Char)
  | decimal (digits : List Char)
  | hexadecimal (marker : Char) (digits : List Char)
  deriving Repr, DecidableEq

/-- A character that may stand in the name of an entity. -/
def isEntityChar (c : Char) : Bool :=
  c.isAlphanum || c == '-' || c == '.'

namespace CharRef

def WellFormed : CharRef → Prop
  | entity name => (∃ c rest, name = c :: rest ∧ isLetter c = true) ∧ ∀ c ∈ name, isEntityChar c = true
  | decimal digits => digits ≠ [] ∧ ∀ c ∈ digits, c.isDigit = true
  | hexadecimal marker digits =>
      (marker = 'x' ∨ marker = 'X') ∧ digits ≠ [] ∧ ∀ c ∈ digits, isHex c = true

/-- A reference as it is written, after the ampersand. -/
def body : CharRef → List Char
  | entity name => name ++ [';']
  | decimal digits => '#' :: (digits ++ [';'])
  | hexadecimal marker digits => '#' :: marker :: (digits ++ [';'])

/-- A reference as it is written. -/
def text (r : CharRef) : List Char :=
  '&' :: r.body

/-- The token of a reference. -/
def token : CharRef → Token
  | entity name => .entity name
  | decimal digits => .charCode digits
  | hexadecimal marker digits => .charCode (marker :: digits)

theorem piece_token (r : CharRef) : r.token.piece = r.text := by
  cases r <;> simp [token, Token.piece, text, body]

end CharRef

/-- Digits up to a semicolon. -/
theorem charCode?_digits {p : Char → Bool} {digits : List Char} (hne : digits ≠ [])
    (hdigits : ∀ c ∈ digits, p c = true) (hsemicolon : p ';' = false) (rest : List Char) :
    (digits ++ ';' :: rest).takeWhile p = digits ∧
      (digits ++ ';' :: rest).dropWhile p = ';' :: rest ∧ digits.isEmpty = false := by
  refine ⟨?_, ?_, by simpa using hne⟩
  · rw [List.takeWhile_append_of_pos hdigits, List.takeWhile_cons_of_neg (by simp [hsemicolon]),
      List.append_nil]
  · rw [List.dropWhile_append_of_pos hdigits, List.dropWhile_cons_of_neg (by simp [hsemicolon])]

theorem readReference_body {r : CharRef} (h : r.WellFormed) (final : Bool) (rest : List Char) :
    readReference final (r.body ++ rest) = .read [r.token] rest := by
  cases r with
  | entity name =>
      obtain ⟨⟨c, tail, rfl, hc⟩, hchars⟩ := h
      have hsplit := charCode?_digits (List.cons_ne_nil c tail) hchars (by decide) rest
      have hname : entityName? (c :: tail ++ ';' :: rest) = some (c :: tail, ';' :: rest) := by
        have htake := hsplit.1
        have hdrop := hsplit.2.1
        rw [List.cons_append] at htake hdrop ⊢
        simp only [entityName?, hc, if_true]
        change (if ((c :: (tail ++ ';' :: rest)).dropWhile isEntityChar).isEmpty = true then _ else
          some ((c :: (tail ++ ';' :: rest)).takeWhile isEntityChar,
            (c :: (tail ++ ';' :: rest)).dropWhile isEntityChar)) = _
        rw [htake, hdrop]
        rfl
      have hhash : c ≠ '#' := by
        rintro rfl
        exact absurd hc (by decide)
      have hbody : CharRef.body (.entity (c :: tail)) ++ rest = c :: tail ++ ';' :: rest := by
        simp [CharRef.body]
      rw [hbody]
      rw [List.cons_append] at hname ⊢
      unfold readReference
      split
      · rename_i heq
        exact absurd (List.cons.inj heq).1 hhash
      · simp only [hname]
        rfl
  | decimal digits =>
      obtain ⟨hne, hdigits⟩ := h
      obtain ⟨htake, hdrop, hempty⟩ := charCode?_digits hne hdigits (by decide) rest
      obtain ⟨c, tail, rfl⟩ := List.exists_cons_of_ne_nil hne
      have hc : c.isDigit = true := hdigits c (List.mem_cons_self ..)
      have hcode : charCode? (c :: tail ++ ';' :: rest) = some (c :: tail, ';' :: rest) := by
        rw [List.cons_append] at htake hdrop ⊢
        unfold charCode?
        split
        · rename_i heq
          rw [(List.cons.inj heq).1] at hc
          exact absurd hc (by decide)
        · rename_i heq
          rw [(List.cons.inj heq).1] at hc
          exact absurd hc (by decide)
        · simp only [htake, hdrop]
          rfl
      have hbody : CharRef.body (.decimal (c :: tail)) ++ rest = '#' :: (c :: tail ++ ';' :: rest) := by
        simp [CharRef.body]
      rw [hbody, readReference]
      simp only [hcode]
      rfl
  | hexadecimal marker digits =>
      obtain ⟨hmarker, hne, hdigits⟩ := h
      obtain ⟨htake, hdrop, hempty⟩ := charCode?_digits hne hdigits (by decide) rest
      have hcode : charCode? (marker :: (digits ++ ';' :: rest)) =
          some (marker :: digits, ';' :: rest) := by
        obtain ⟨c, tail, rfl⟩ := List.exists_cons_of_ne_nil hne
        rcases hmarker with rfl | rfl <;>
          · simp only [charCode?, htake, hdrop]
            rfl
      have hbody : CharRef.body (.hexadecimal marker digits) ++ rest =
          '#' :: (marker :: (digits ++ ';' :: rest)) := by
        simp [CharRef.body]
      rw [hbody, readReference]
      simp only [hcode]
      rfl

/-! ## Phrases -/

/-- An element whose content is copied or collected. -/
def isRegion (element : String) : Bool :=
  verbatimElements.contains element || scriptElements.contains element

/-- What may stand in running text and in verbatim elements. -/
inductive Phrase
  | word (text : List Char)
  | gap (text : List Char)
  | reference (r : CharRef)
  | tag (t : Tag)
  | endTag (name : List Char)
  deriving Repr, DecidableEq

namespace Phrase

def WellFormed : Phrase → Prop
  | word text => IsWord text
  | gap text => IsGap text
  | reference r => r.WellFormed
  | tag t => t.WellFormed ∧ (t.closed = false → isRegion t.element = false)
  | endTag name => IsTagName name ∧ lower name = name

/-- A phrase as a part of a text. -/
def piece : Phrase → Piece
  | word text => .word text
  | gap text => .gap text
  | reference r => .markup r.text [r.token]
  | tag t => .markup t.text [t.token]
  | endTag name => .markup (closing (String.ofList name)) [.endTag (String.ofList name)]

/-- The characters of a phrase. -/
def text (p : Phrase) : List Char :=
  p.piece.text

end Phrase

/-! ## Items -/

/-- A part of a document. -/
inductive Item
  | phrase (p : Phrase)
  | comment (body : List Char)
  | doctype (keyword body : List Char)
  | verbatim (t : Tag) (content : List Phrase)
  | script (t : Tag) (body : List Char)
  deriving Repr, DecidableEq

namespace Item

/-- The text of phrases. -/
def contentOf (content : List Phrase) : List Char :=
  textOf (content.map Phrase.piece)

/-- The tokens of an item, and its text. -/
def piece : Item → Piece
  | phrase p => p.piece
  | comment body => .markup ("<!--".toList ++ (body ++ "-->".toList)) [.comment body]
  | doctype keyword body =>
      .markup ("<!".toList ++ (keyword ++ (body ++ ['>']))) [.declaration (keyword ++ body)]
  | verbatim t content =>
      .markup (t.text ++ (contentOf content ++ closing t.element))
        ([t.token] ++ (spell [] (content.map Phrase.piece) ++ [.endTag t.element]))
  | script t body =>
      .markup (t.text ++ (body ++ closing t.element))
        ([t.token] ++ (dataTokens body ++ [.endTag t.element]))

/-- The characters of an item. -/
def text (i : Item) : List Char :=
  i.piece.text

/-- A phrase that does not end the verbatim element around it. -/
def StaysIn (element : String) : Phrase → Prop
  | .endTag name => String.ofList name ≠ element
  | _ => True

def WellFormed : Item → Prop
  | phrase p => p.WellFormed
  | comment body => ¬ ['-', '-'] <:+: body
  | doctype keyword body =>
      keyword.length = 7 ∧ lower keyword = "doctype".toList ∧ (∀ c ∈ keyword, isLetter c = true) ∧
        ∀ c ∈ body, c ≠ '>'
  | verbatim t content =>
      t.WellFormed ∧ t.closed = false ∧ verbatimElements.contains t.element = true ∧
        ∀ p ∈ content, p.WellFormed ∧ StaysIn t.element p
  | script t body =>
      t.WellFormed ∧ t.closed = false ∧ scriptElements.contains t.element = true ∧
        IsScriptBody body

/-- An item that joins the inline run. -/
def isInline : Item → Bool
  | phrase (.word _) => true
  | phrase (.reference _) => true
  | phrase (.tag t) => inlineElements.contains t.element
  | phrase (.endTag name) =>
      inlineElements.contains (String.ofList name) || voidElements.contains (String.ofList name)
  | _ => false

/-- White space. -/
def isGap : Item → Bool
  | phrase (.gap _) => true
  | _ => false

end Item

/-! ## Laying out -/

namespace State

theorem IsFlow.flush {s : State} (h : s.IsFlow) : s.flush.IsFlow := by
  obtain ⟨lines, wanted, hflush, -⟩ := s.flush_spec
  rw [hflush]
  exact h

/-- Writes lines of which only the first is indented. -/
def writeLines (s : State) : List (List Char) → State
  | [] => s
  | first :: rest => { s.emit first with lines := (s.emit first).lines ++ rest }

theorem emitLines_eq (s : State) (text : List Char) :
    s.emitLines text = s.writeLines (splitAt '\n' text) := by
  obtain ⟨first, rest, hsplit⟩ :=
    List.exists_cons_of_ne_nil (splitBy_ne_nil (p := (· == '\n')) text)
  rw [splitAt, emitLines, splitAt, hsplit]
  rfl

theorem closeTag_script {s : State} {script : Script} (hverbatim : s.verbatim = none)
    (hscript : s.script = some script) : s.closeTag script.element = s.emitScript script := by
  simp only [closeTag, hverbatim, hscript, if_true]

theorem text_script {s : State} {script : Script} (hverbatim : s.verbatim = none)
    (hscript : s.script = some script) (content : List Char) :
    s.text content = s.collect script content := by
  simp only [text, hverbatim, hscript]

theorem emitScript_eq (s : State) (script : Script) :
    s.emitScript script = { s with script := none }.writeLines
      (if (trimBy isLayoutBlank script.body.flatten).isEmpty then
        [script.source ++ closing script.element]
      else script.source :: (scriptLines s.depth script.body.flatten ++
        [indent s.depth ++ closing script.element])) := by
  rw [emitScript]
  dsimp only
  split
  · simp [writeLines]
  · simp [writeLines, emit_eq, gapLine_of_not_wanted]

end State

namespace Item

/-- What an end tag does before its line is written. -/
def enter (i : Item) (s : State) : State :=
  match i with
  | phrase (.endTag name) => s.closeElement (String.ofList name)
  | _ => s

/-- What a start tag does after its line is written. -/
def leave (i : Item) (s : State) : State :=
  match i with
  | phrase (.tag t) =>
      if t.closed || voidElements.contains t.element then s
      else { s with stack := t.element :: s.stack, depth := s.depth + 1 }
  | _ => s

/-- The lines of a block at a depth, the first of them not yet indented. -/
def lines (i : Item) (depth : Nat) : List (List Char) :=
  match i with
  | phrase p => [p.text]
  | script t body =>
      if (trimBy isLayoutBlank body).isEmpty then [t.text ++ closing t.element]
      else t.text :: (State.scriptLines depth body ++ [indent depth ++ closing t.element])
  | i => splitAt '\n' i.text

/-- The state after a block, given the state in which the inline run has ended. -/
def layBlock (i : Item) (s : State) : State :=
  i.leave ((i.enter s).writeLines (i.lines (i.enter s).depth))

variable {s : State} {i : Item}

theorem lay_inline (hs : s.IsFlow) (hi : i.WellFormed) (hinline : i.isInline = true) :
    Piece.lay s i.piece = s.addAtom i.text := by
  cases i with
  | phrase p =>
      cases p with
      | word text => exact Piece.lay_word hs hi
      | gap text => cases hinline
      | reference r =>
          have htext : s.reference r.token.piece = s.addAtom r.text := by
            simp only [State.reference, hs.1, hs.2, r.piece_token]
          cases r <;> exact htext
      | tag t =>
          have hinline : inlineElements.contains t.element = true := hinline
          change s.step t.token = s.addAtom t.text
          cases hclosed : t.closed with
          | true => simp only [Tag.token, hclosed, if_true, State.step, State.emptyTag, hs.1, hinline]
          | false =>
              have hregion := hi.2 hclosed
              rw [isRegion, Bool.or_eq_false_iff] at hregion
              simp only [Tag.token, hclosed, Bool.false_eq_true, if_false, State.step, State.openTag,
                hs.1, hregion.1, hregion.2, hinline, if_true]
      | endTag name =>
          have hinline : (inlineElements.contains (String.ofList name) ||
            voidElements.contains (String.ofList name)) = true := hinline
          change s.closeTag (String.ofList name) = s.addAtom (closing (String.ofList name))
          simp only [State.closeTag, hs.1, hs.2, hinline, if_true]
  | comment body => cases hinline
  | doctype keyword body => cases hinline
  | verbatim t content => cases hinline
  | script t body => cases hinline

/-- A token that a verbatim region keeps as it is. -/
def Quiet (element : String) : Token → Prop
  | .startTag name _ => name ≠ element
  | .endTag name => name ≠ element
  | _ => True

theorem foldl_quiet {ts : List Token} {v : Verbatim} (hts : ∀ token ∈ ts, Quiet v.element token)
    (hverbatim : s.verbatim = some v) :
    ts.foldl State.step s =
      { s with verbatim := some { v with pieces := v.pieces ++ ts.map Token.piece } } := by
  induction ts generalizing s v with
  | nil => simp [← hverbatim]
  | cons token rest ih =>
      have hquiet := hts token (List.mem_cons_self ..)
      have hstep : s.step token = s.copy v v.nesting token.piece := by
        cases token with
        | startTag name source =>
            simp only [State.step, State.openTag, hverbatim]
            rw [if_neg hquiet]
            rfl
        | endTag name =>
            simp only [State.step, State.closeTag, hverbatim]
            rw [if_neg hquiet]
            rfl
        | emptyTag name source => simp only [State.step, State.emptyTag, hverbatim]; rfl
        | data text => simp only [State.step, State.text, hverbatim]; rfl
        | entity name => simp only [State.step, State.reference, hverbatim]
        | charCode digits => simp only [State.step, State.reference, hverbatim]
        | comment text => simp only [State.step, State.block, hverbatim]
        | declaration text => simp only [State.step, State.block, hverbatim]
        | markedSection text => simp only [State.step, State.block, hverbatim]
        | instruction text => simp only [State.step, State.block, hverbatim]
      rw [List.foldl_cons, hstep,
        ih (v := { v with pieces := v.pieces ++ [token.piece] })
          (fun t ht => hts t (List.mem_cons_of_mem _ ht)) rfl]
      simp [State.copy]

/-- The tokens of phrases: none of them ends the element around, and together they
are printed as the text of the phrases. -/
theorem spell_content {element : String} (helement : verbatimElements.contains element = true)
    {content : List Phrase} (hcontent : ∀ p ∈ content, p.WellFormed ∧ StaysIn element p)
    (front : List Char) :
    (∀ token ∈ spell front (content.map Phrase.piece), Quiet element token) ∧
      ((spell front (content.map Phrase.piece)).map Token.piece).flatten =
        front ++ contentOf content := by
  have hdata : ∀ front : List Char, (∀ token ∈ dataTokens front, Quiet element token) ∧
      ((dataTokens front).map Token.piece).flatten = front := by
    intro front
    unfold dataTokens
    split
    · rename_i hempty
      simp [List.isEmpty_iff.mp hempty]
    · simp [Quiet, Token.piece]
  induction content generalizing front with
  | nil => simpa [contentOf, spell] using hdata front
  | cons p rest ih =>
      have hrest := ih fun q hq => hcontent q (List.mem_cons_of_mem _ hq)
      obtain ⟨hwf, hstays⟩ := hcontent p (List.mem_cons_self ..)
      have hmarkup : ∀ source token, p.piece = .markup source [token] → Quiet element token →
          token.piece = source →
            (∀ token ∈ spell front ((p :: rest).map Phrase.piece), Quiet element token) ∧
              ((spell front ((p :: rest).map Phrase.piece)).map Token.piece).flatten =
                front ++ contentOf (p :: rest) := by
        intro source token hpiece hquiet hsource
        obtain ⟨hfront, hfrontText⟩ := hdata front
        obtain ⟨hall, htext⟩ := hrest []
        simp only [List.map_cons, hpiece, spell, contentOf, textOf_cons, Piece.text]
        refine ⟨?_, ?_⟩
        · intro t ht
          simp only [List.mem_append, List.mem_singleton] at ht
          rcases ht with (ht | rfl) | ht
          · exact hfront t ht
          · exact hquiet
          · exact hall t ht
        · rw [contentOf] at htext
          simp [hfrontText, htext, hsource]
      cases p with
      | word text =>
          have hstep := hrest (front ++ text)
          simpa [contentOf, Phrase.piece, spell, Piece.text] using hstep
      | gap text =>
          have hstep := hrest (front ++ text)
          simpa [contentOf, Phrase.piece, spell, Piece.text] using hstep
      | reference r =>
          exact hmarkup r.text r.token rfl (by cases r <;> trivial) r.piece_token
      | tag t =>
          refine hmarkup t.text t.token rfl ?_ ?_
          · cases hclosed : t.closed with
            | true => simp [Tag.token, hclosed, Quiet]
            | false =>
                have hregion := hwf.2 hclosed
                rw [isRegion, Bool.or_eq_false_iff] at hregion
                simp only [Tag.token, hclosed, Bool.false_eq_true, if_false, Quiet]
                rintro heq
                rw [heq, helement] at hregion
                cases hregion.1
          · cases hclosed : t.closed <;> simp [Tag.token, hclosed, Token.piece]
      | endTag name => exact hmarkup _ _ rfl hstays rfl

theorem lay_verbatim (hs : s.IsFlow) {t : Tag} {content : List Phrase}
    (hi : (verbatim t content).WellFormed) :
    Piece.lay s (verbatim t content).piece = s.flush.emitLines (verbatim t content).text := by
  obtain ⟨-, hclosed, helement, hcontent⟩ := hi
  obtain ⟨hquiet, htext⟩ := spell_content helement hcontent []
  have hopen : s.step t.token =
      { s.flush with verbatim := some ⟨t.element, 1, [t.text]⟩ } := by
    simp only [Tag.token, hclosed, Bool.false_eq_true, if_false, State.step, State.openTag, hs.1,
      helement, if_true]
  have hnone : ({ s.flush with verbatim := none } : State) = s.flush := by
    rw [← hs.flush.1]
  have hfold := foldl_quiet (s := { s.flush with verbatim := some ⟨t.element, 1, [t.text]⟩ })
    hquiet rfl
  simp only [Piece.lay, piece, Piece.tokens, List.foldl_append, List.foldl_cons, List.foldl_nil]
  rw [hopen, hfold]
  simp only [State.step, State.closeTag, if_true, Nat.le_refl, State.emitVerbatim]
  rw [hnone]
  congr 1
  rw [List.nil_append] at htext
  simp [text, piece, Piece.text, htext]

theorem lay_script (hs : s.IsFlow) {t : Tag} {body : List Char}
    (hi : (script t body).WellFormed) :
    Piece.lay s (script t body).piece =
      s.flush.writeLines ((script t body).lines s.flush.depth) := by
  obtain ⟨-, hclosed, helement, -⟩ := hi
  have hverbatim : verbatimElements.contains t.element = false := by
    have hmem : t.element ∈ scriptElements := by simpa using helement
    simp only [scriptElements, List.mem_cons, List.not_mem_nil, or_false] at hmem
    rcases hmem with h | h <;> rw [h] <;> decide
  have hopen : s.step t.token = { s.flush with script := some ⟨t.element, t.text, []⟩ } := by
    simp only [Tag.token, hclosed, Bool.false_eq_true, if_false, State.step, State.openTag, hs.1,
      helement, hverbatim, if_true]
  have hbody : (dataTokens body).foldl State.step
      { s.flush with script := some ⟨t.element, t.text, []⟩ } =
        { s.flush with script := some ⟨t.element, t.text, dataTokens body |>.map Token.piece⟩ } := by
    unfold dataTokens
    split
    · rfl
    · simp [State.step, State.text, hs.flush.1, State.collect, Token.piece]
  have hflatten : ((dataTokens body).map Token.piece).flatten = body := by
    unfold dataTokens
    split
    · rename_i hempty
      simp [List.isEmpty_iff.mp hempty]
    · simp [Token.piece]
  have hnone : ({ s.flush with script := none } : State) = s.flush := by
    rw [← hs.flush.2]
  simp only [Piece.lay, piece, Piece.tokens, List.foldl_append, List.foldl_cons, List.foldl_nil]
  rw [hopen, hbody]
  let opened : Script := ⟨t.element, t.text, (dataTokens body).map Token.piece⟩
  let collecting : State := { s.flush with script := some opened }
  have hverbatim : collecting.verbatim = none := hs.flush.1
  have hcollects : collecting.script = some opened := rfl
  have hclose := State.closeTag_script hverbatim hcollects
  refine hclose.trans ?_
  rw [State.emitScript_eq, hflatten, lines]
  exact congrArg (State.writeLines · _) hnone

/-- A block ends the inline run, and its lines are written. -/
theorem lay_block (hs : s.IsFlow) (hi : i.WellFormed) (hinline : i.isInline = false)
    (hgap : i.isGap = false) : Piece.lay s i.piece = i.layBlock s.flush := by
  cases i with
  | phrase p =>
      cases p with
      | word text => cases hinline
      | gap text => cases hgap
      | reference r => cases hinline
      | tag t =>
          have hinline : inlineElements.contains t.element = false := hinline
          change s.step t.token = _
          cases hclosed : t.closed with
          | true =>
              simp only [Tag.token, hclosed, if_true, State.step, State.emptyTag, hs.1, hinline,
                Bool.false_eq_true, if_false, layBlock, leave, Bool.true_or, lines, enter]
              simp [State.writeLines, Phrase.text, Phrase.piece, Piece.text]
          | false =>
              have hregion := hi.2 hclosed
              rw [isRegion, Bool.or_eq_false_iff] at hregion
              simp only [Tag.token, hclosed, Bool.false_eq_true, if_false, State.step, State.openTag,
                hs.1, hregion.1, hregion.2, hinline, layBlock, leave, Bool.false_or, lines, enter]
              simp [State.writeLines, Phrase.text, Phrase.piece, Piece.text]
      | endTag name =>
          have hinline : (inlineElements.contains (String.ofList name) ||
            voidElements.contains (String.ofList name)) = false := hinline
          change s.closeTag (String.ofList name) = _
          simp only [State.closeTag, hs.1, hs.2, hinline, Bool.false_eq_true, if_false, layBlock,
            leave, enter, lines]
          simp [State.writeLines, Phrase.text, Phrase.piece, Piece.text]
  | comment body =>
      have htext : (comment body).text = (Token.comment body).piece := by
        simp [text, piece, Piece.text, Token.piece]
      change s.block (Token.comment body).piece = _
      simp only [State.block, hs.1, layBlock, leave, enter, lines, htext, State.emitLines_eq]
  | doctype keyword body =>
      have htext : (doctype keyword body).text = (Token.declaration (keyword ++ body)).piece := by
        simp [text, piece, Piece.text, Token.piece]
      change s.block (Token.declaration (keyword ++ body)).piece = _
      simp only [State.block, hs.1, layBlock, leave, enter, lines, htext, State.emitLines_eq]
  | verbatim t content => rw [lay_verbatim hs hi, State.emitLines_eq]; rfl
  | script t body => exact lay_script hs hi

end Item

/-! ## Reading -/

theorem readsAs_comment {body : List Char} (hbody : ¬ HasMark ['-', '-'] body) :
    ReadsAs ("<!--".toList ++ (body ++ "-->".toList)) [.comment body] := by
  change ReadsAs ('<' :: ('!' :: '-' :: '-' :: (body ++ "-->".toList))) _
  refine readsAs_of_readMarkup fun rest => ?_
  have htext : body ++ "-->".toList ++ rest = body ++ (['-', '-'] ++ '>' :: rest) := by simp
  change (readDeclaration .markup ('-' :: '-' :: (body ++ "-->".toList ++ rest))).map some = _
  rw [htext, readDeclaration, readUntil, splitAtMark_comment hbody]
  rfl

theorem readsAs_doctype {keyword body : List Char} (hlength : keyword.length = 7)
    (hlower : lower keyword = "doctype".toList) (hletters : ∀ c ∈ keyword, isLetter c = true)
    (hbody : ∀ c ∈ body, c ≠ '>') :
    ReadsAs ("<!".toList ++ (keyword ++ (body ++ ['>']))) [.declaration (keyword ++ body)] := by
  change ReadsAs ('<' :: ('!' :: (keyword ++ (body ++ ['>'])))) _
  refine readsAs_of_readMarkup fun rest => ?_
  obtain ⟨c, tail, hkeyword⟩ : ∃ c tail, keyword = c :: tail :=
    List.exists_cons_of_ne_nil (by rintro rfl; cases hlength)
  have hc : isLetter c = true := hletters c (by simp [hkeyword])
  have htext : keyword ++ (body ++ ['>']) ++ rest = keyword ++ (body ++ '>' :: rest) := by simp
  have htake : (keyword ++ (body ++ '>' :: rest)).take 7 = keyword := List.take_left' hlength
  have hdrop : (keyword ++ (body ++ '>' :: rest)).drop 7 = body ++ '>' :: rest :=
    List.drop_left' hlength
  change (readDeclaration .markup (keyword ++ (body ++ ['>']) ++ rest)).map some = _
  rw [htext]
  have hread : readDeclaration .markup (keyword ++ (body ++ '>' :: rest)) =
      .ok (.read [.declaration (keyword ++ body)] .markup rest) := by
    unfold readDeclaration
    split
    · rename_i heq
      rw [hkeyword] at heq
      rw [(List.cons.inj heq).1] at hc
      exact absurd hc (by decide)
    · rename_i heq
      rw [hkeyword] at heq
      rw [(List.cons.inj heq).1] at hc
      exact absurd hc (by decide)
    · rw [htake, if_pos hlower, hdrop, splitAtMark_closeMark hbody]
  rw [hread]
  rfl

/-! ### Regions -/

/-- The names of regions are names of elements in lower case. -/
theorem exists_name_of_isRegion {element : String} (h : isRegion element = true) :
    ∃ name, element = String.ofList name ∧ IsTagName name ∧ lower name = name := by
  have hmem : element = "pre" ∨ element = "textarea" ∨ element = "script" ∨ element = "style" := by
    have hmem : (element = "pre" ∨ element = "textarea") ∨ element = "script" ∨ element = "style" := by
      simpa [isRegion, verbatimElements, scriptElements] using h
    tauto
  have hname : ∀ name : List Char, (∃ c rest, name = c :: rest ∧ isLetter c = true) →
      (∀ c ∈ name, isTagNameChar c = true ∧ isBlank c = false) → lower name = name →
        element = String.ofList name →
          ∃ name, element = String.ofList name ∧ IsTagName name ∧ lower name = name :=
    fun name hletter hchars hlower heq => ⟨name, heq, ⟨hletter, hchars⟩, hlower⟩
  rcases hmem with rfl | rfl | rfl | rfl
  · exact hname "pre".toList ⟨'p', _, rfl, by decide⟩ (by simp [isTagNameChar, isBlank])
      (by decide) rfl
  · exact hname "textarea".toList ⟨'t', _, rfl, by decide⟩ (by simp [isTagNameChar, isBlank])
      (by decide) rfl
  · exact hname "script".toList ⟨'s', _, rfl, by decide⟩ (by simp [isTagNameChar, isBlank])
      (by decide) rfl
  · exact hname "style".toList ⟨'s', _, rfl, by decide⟩ (by simp [isTagNameChar, isBlank])
      (by decide) rfl

theorem readsAs_closing {element : String} (h : isRegion element = true) :
    ReadsAs (closing element) [.endTag element] := by
  obtain ⟨name, rfl, hname, hlower⟩ := exists_name_of_isRegion h
  exact readsAs_endTag hname hlower

/-- A tag that does not open a script element is read in markup. -/
theorem Tag.WellFormed.readsAs_of_not_script {t : Tag} (h : t.WellFormed)
    (hscript : t.closed = false → scriptElements.contains t.element = false) :
    ReadsAs t.text [t.token] := by
  refine h.readsAs ?_
  have hraw : rawTextElements = scriptElements := rfl
  rw [Tag.context, hraw]
  cases hclosed : t.closed with
  | true => rfl
  | false =>
      rw [hscript hclosed]
      rfl

/-- The body of a script is data up to the end tag. -/
theorem splitAtMark_rawTextClose {element : String} {body : List Char}
    (hbody : ¬ ['<', '/'] <:+: body) {tail rest : List Char}
    (hclose : rawTextClose element ('<' :: '/' :: tail) = some rest) :
    splitAtMark (rawTextClose element) (body ++ '<' :: '/' :: tail) = some (body, rest) := by
  refine splitAtMark_append ?_ (List.cons_ne_nil _ _) hclose
  intro back hback hne
  rw [rawTextClose]
  intro t heq
  -- an end tag would begin in the body, or with its last character
  rcases back with _ | ⟨c, _ | ⟨d, back⟩⟩
  · exact hne rfl
  · exact absurd (List.cons.inj (List.cons.inj heq).2).1 (by decide)
  · obtain ⟨rfl, hrest⟩ := List.cons.inj heq
    obtain ⟨rfl, -⟩ := List.cons.inj hrest
    exact hbody (List.IsInfix.trans ⟨[], back, rfl⟩ hback.isInfix)

/-- The names of script elements, and their end tags. -/
theorem exists_name_of_script {element : String} (h : scriptElements.contains element = true) :
    ∃ name, element = String.ofList name ∧ IsTagName name ∧ lower name = name ∧
      (∀ c ∈ name, isEndNameChar c = true) ∧
      ∀ rest, rawTextClose element ('<' :: '/' :: (name ++ '>' :: rest)) = some rest := by
  have hmem : element = "script" ∨ element = "style" := by
    simpa [scriptElements] using h
  rcases hmem with rfl | rfl
  · exact ⟨"script".toList, rfl, ⟨⟨'s', _, rfl, by decide⟩, by simp [isTagNameChar, isBlank]⟩,
      by decide, by simp [isEndNameChar],
      fun rest => rfl⟩
  · exact ⟨"style".toList, rfl, ⟨⟨'s', _, rfl, by decide⟩, by simp [isTagNameChar, isBlank]⟩,
      by decide, by simp [isEndNameChar],
      fun rest => rfl⟩

theorem readsAs_script {t : Tag} {body : List Char} (hi : (Item.script t body).WellFormed) :
    ReadsAs (t.text ++ (body ++ closing t.element))
      ([t.token] ++ (dataTokens body ++ [.endTag t.element])) := by
  obtain ⟨ht, hclosed, helement, hbody⟩ := hi
  obtain ⟨name, hname, htag, hlower, hchars, hclose⟩ := exists_name_of_script helement
  have hraw : rawTextElements.contains t.element = true := helement
  have hcontext : t.context = .rawText t.element := by
    rw [Tag.context, hclosed, hraw]
    rfl
  refine ⟨2, ?_, ?_⟩
  · simp only [List.length_append, Tag.text, closing, List.length_cons]
    omega
  · intro final fuel front rest hfront
    have htext : front ++ (t.text ++ (body ++ closing t.element) ++ rest) =
        front ++ '<' :: (t.body ++ (body ++ '<' :: '/' :: (name ++ '>' :: rest))) := by
      rw [hname]
      simp [Tag.text, closing]
    have hsplit : splitData .markup (front ++ '<' :: (t.body ++ (body ++ '<' :: '/' ::
        (name ++ '>' :: rest)))) = some (front, _) := splitData_plain hfront (by simp)
    have hopen := ht.readMarkup_body (body ++ '<' :: '/' :: (name ++ '>' :: rest))
    rw [hcontext] at hopen
    have hdata : splitData (.rawText t.element) (body ++ '<' :: '/' :: (name ++ '>' :: rest)) =
        some (body, '<' :: '/' :: (name ++ '>' :: rest)) := by
      rw [splitData, splitAtMark_rawTextClose hbody.no_close (hclose rest), Option.map_some]
      simp only [List.drop_left]
    have hend : readMarkup (.rawText t.element) ('/' :: (name ++ '>' :: rest)) =
        .ok (some (.read [.endTag t.element] .markup rest)) := by
      rw [readMarkup, hname, readEndTag_rawText htag hlower hchars]
    rw [htext]
    simp only [pass, hsplit, hopen, hdata, hend, bind, Except.bind, pure, Except.pure]
    cases pass final fuel .markup rest with
    | error e => rfl
    | ok stopped => simp only [Except.map, Stopped.after_after, List.append_assoc]

namespace Item

theorem isFlow_layBlock {s : State} (hs : s.IsFlow) (i : Item) : (i.layBlock s).IsFlow := by
  have henter : (i.enter s).IsFlow := by
    unfold enter
    split
    · rw [State.closeElement]
      split <;> exact hs
    · exact hs
  have hwrite : ((i.enter s).writeLines (i.lines (i.enter s).depth)).IsFlow := by
    unfold State.writeLines
    split <;> exact henter
  unfold layBlock leave
  split
  · split <;> exact hwrite
  · exact hwrite

theorem isFlow_lay {s : State} {i : Item} (hs : s.IsFlow) (hi : i.WellFormed) :
    (Piece.lay s i.piece).IsFlow := by
  cases hgap : i.isGap with
  | true =>
      cases i with
      | phrase p =>
          cases p with
          | gap text =>
              rw [piece, Phrase.piece, Piece.lay_gap hs]
              exact hs.flow text
          | _ => cases hgap
      | _ => cases hgap
  | false =>
      cases hinline : i.isInline with
      | true =>
          rw [lay_inline hs hi hinline]
          exact hs.addAtom _
      | false =>
          rw [lay_block hs hi hinline hgap]
          exact isFlow_layBlock hs.flush i

/-- The piece of an item that is a word, a gap, or read as the tokens of its piece. -/
theorem wellFormed_of_readsAs {i : Item} (hi : i.WellFormed)
    (hread : ∀ source ts, i.piece = .markup source ts → ReadsAs source ts) :
    i.piece.WellFormed := by
  have hflow := fun s (hs : State.IsFlow s) => isFlow_lay hs hi
  cases hpiece : i.piece with
  | markup source ts =>
      rw [hpiece] at hflow
      exact ⟨hread source ts hpiece, hflow⟩
  | word text =>
      cases i with
      | phrase p => cases p <;> cases hpiece; exact hi
      | _ => cases hpiece
  | gap text =>
      cases i with
      | phrase p => cases p <;> cases hpiece; exact hi
      | _ => cases hpiece

theorem phrase_wellFormed {p : Phrase} (hp : p.WellFormed) : p.piece.WellFormed := by
  refine wellFormed_of_readsAs (i := .phrase p) hp fun source ts hpiece => ?_
  cases p with
  | word text => cases hpiece
  | gap text => cases hpiece
  | reference r =>
      cases hpiece
      exact readsAs_of_readReference fun final rest => readReference_body hp final rest
  | tag t =>
      cases hpiece
      refine hp.1.readsAs_of_not_script fun hclosed => ?_
      have hregion := hp.2 hclosed
      rw [isRegion, Bool.or_eq_false_iff] at hregion
      exact hregion.2
  | endTag name =>
      cases hpiece
      exact readsAs_endTag hp.1 hp.2

theorem readsAs_verbatim {t : Tag} {content : List Phrase}
    (hi : (verbatim t content).WellFormed) :
    ReadsAs (t.text ++ (contentOf content ++ closing t.element))
      ([t.token] ++ (spell [] (content.map Phrase.piece) ++ [.endTag t.element])) := by
  obtain ⟨ht, -, helement, hcontent⟩ := hi
  have hnotScript : scriptElements.contains t.element = false := by
    have hmem : t.element ∈ verbatimElements := by simpa using helement
    simp only [verbatimElements, List.mem_cons, List.not_mem_nil, or_false] at hmem
    rcases hmem with h | h <;> rw [h] <;> decide
  refine readsAs_enclosed (ht.readsAs_of_not_script fun _ => hnotScript) ?_
    (readsAs_closing (by rw [isRegion, helement]; rfl))
  intro piece hpiece
  obtain ⟨p, hp, rfl⟩ := List.mem_map.mp hpiece
  exact phrase_wellFormed (hcontent p hp).1

/-- An item is read as the tokens of its piece, and leaves nothing open. -/
theorem piece_wellFormed {i : Item} (hi : i.WellFormed) : i.piece.WellFormed := by
  refine wellFormed_of_readsAs hi fun source ts hpiece => ?_
  cases i with
  | phrase p =>
      have hp := phrase_wellFormed (p := p) hi
      have hpiece : p.piece = .markup source ts := hpiece
      rw [hpiece] at hp
      exact hp.1
  | comment body =>
      cases hpiece
      exact readsAs_comment fun h => hi h.isInfix
  | doctype keyword body =>
      cases hpiece
      exact readsAs_doctype hi.1 hi.2.1 hi.2.2.1 hi.2.2.2
  | verbatim t content =>
      cases hpiece
      exact readsAs_verbatim hi
  | script t body =>
      cases hpiece
      exact readsAs_script hi

end Item

end Folio.Markup
