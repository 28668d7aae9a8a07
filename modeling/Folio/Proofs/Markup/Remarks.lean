import Folio.Proofs.Markup.Regions

/-!
# Comments, declarations, sections

Comments, document types, processing instructions and marked sections stand on lines of
their own.  Each is read by a rule with a closing mark of its own, and the printer puts
brackets around what the rule left: `Remark` lists them with the text that each is written
in and the text that it is printed as.  The two are the same, except for a section of
character data: it ends in two square brackets, and is printed with one.

`prettify_remarks` says that the printed texts of the remarks stand in the output, each in
one piece and in their order, whatever words, white space and markup stand between them.
-/

namespace Folio.Markup

open Text

/-! ## Remarks -/

/-- A construct that stands on lines of its own; sections begin with a keyword. -/
inductive Remark
  | comment (body : List Char)
  | doctype (keyword body : List Char)
  | instruction (body : List Char)
  | conditional (keyword tail : List Char)
  | dataSection (keyword tail : List Char)
  deriving Repr, DecidableEq

/-- The keyword of a section, in front of the text `tail`. -/
structure IsKeyword (keyword tail : List Char) : Prop where
  head : ∃ c rest, keyword = c :: rest ∧ isLetter c = true ∧
    ∀ d ∈ rest, isSectionNameChar d = true
  apart : ∀ c ∈ tail.head?, isSectionNameChar c = false

namespace Remark

/-- The text that a remark is written in. -/
def source : Remark → List Char
  | comment body => "<!--".toList ++ (body ++ "-->".toList)
  | doctype keyword body => "<!".toList ++ (keyword ++ (body ++ ['>']))
  | instruction body => "<?".toList ++ (body ++ ['>'])
  | conditional keyword tail => "<![".toList ++ (keyword ++ (tail ++ "]>".toList))
  | dataSection keyword tail => "<![".toList ++ (keyword ++ (tail ++ "]]>".toList))

/-- The text that a remark is printed as: its own, but for the second square bracket of a
section of character data. -/
def printed : Remark → List Char
  | dataSection keyword tail => "<![".toList ++ (keyword ++ (tail ++ "]>".toList))
  | r => r.source

/-- The token that a remark is read as. -/
def token : Remark → Token
  | comment body => .comment body
  | doctype keyword body => .declaration (keyword ++ body)
  | instruction body => .instruction body
  | conditional keyword tail => .markedSection (keyword ++ tail)
  | dataSection keyword tail => .markedSection (keyword ++ tail)

/-- A remark that its closing mark ends, and nothing before it. -/
def WellFormed : Remark → Prop
  | comment body => ¬ HasMark ['-', '-'] body
  | doctype keyword body =>
      keyword.length = 7 ∧ lower keyword = "doctype".toList ∧ (∀ c ∈ keyword, isLetter c = true) ∧
        ∀ c ∈ body, c ≠ '>'
  | instruction body => ∀ c ∈ body, c ≠ '>'
  | conditional keyword tail =>
      IsKeyword keyword tail ∧
        conditionalSections.contains (String.ofList (lower keyword)) = true ∧
        ¬ HasMark [']'] (keyword ++ tail)
  | dataSection keyword tail =>
      IsKeyword keyword tail ∧ dataSections.contains (String.ofList (lower keyword)) = true ∧
        ∀ gap : List Char, (∀ c ∈ gap, isBlank c = true) →
          ¬ HasMark (']' :: (gap ++ [']'])) (keyword ++ tail)

theorem piece_token (r : Remark) : r.token.piece = r.printed := by
  cases r <;> simp [token, Token.piece, printed, source]

theorem enclosed_printed (r : Remark) : Enclosed r.printed := by
  cases r with
  | comment body => exact ⟨'!' :: '-' :: '-' :: (body ++ ['-', '-']), by simp [printed, source]⟩
  | doctype keyword body => exact ⟨'!' :: (keyword ++ body), by simp [printed, source]⟩
  | instruction body => exact ⟨'?' :: body, by simp [printed, source]⟩
  | conditional keyword tail | dataSection keyword tail =>
      exact ⟨'!' :: '[' :: (keyword ++ (tail ++ [']'])), by simp [printed, source]⟩

/-! ### Reading -/

/-- A section is read by the rule that its keyword names. -/
theorem readSection_keyword {keyword tail close : List Char} (h : IsKeyword keyword tail)
    (context : Context) :
    readSection context (keyword ++ (tail ++ ']' :: close)) =
      if dataSections.contains (String.ofList (lower keyword)) then
        .ok (readUntil sectionClose .markedSection context (keyword ++ (tail ++ ']' :: close)))
      else if conditionalSections.contains (String.ofList (lower keyword)) then
        .ok (readUntil conditionalClose .markedSection context (keyword ++ (tail ++ ']' :: close)))
      else
        .error (.unknownSection (keyword ++ (tail ++ ']' :: close).takeWhile isBlank)) := by
  obtain ⟨⟨c, rest, rfl, hc, hrest⟩, hapart⟩ := h
  have hstop : ∀ d ∈ (tail ++ ']' :: close).head?, isSectionNameChar d = false := by
    cases tail with
    | nil =>
        intro d hd
        obtain rfl := Option.some.inj hd
        decide
    | cons d tail => exact hapart
  have hword : (rest ++ (tail ++ ']' :: close)).takeWhile isSectionNameChar = rest ∧
      (rest ++ (tail ++ ']' :: close)).dropWhile isSectionNameChar = tail ++ ']' :: close := by
    obtain ⟨d, back, hback⟩ := List.exists_cons_of_ne_nil (l := tail ++ ']' :: close) (by simp)
    have hd := hstop d (by simp [hback])
    rw [hback, takeWhile_append_cons_of_neg rest hd, dropWhile_append_cons_of_neg rest hd,
      List.takeWhile_eq_self_iff.mpr hrest, List.dropWhile_eq_nil_iff.mpr hrest]
    exact ⟨rfl, rfl⟩
  have hgoesOn : ((tail ++ ']' :: close).dropWhile isBlank).isEmpty = false := by
    rw [Bool.eq_false_iff]
    intro hempty
    have hblank := List.dropWhile_eq_nil_iff.mp (List.isEmpty_iff.mp hempty) ']' (by simp)
    exact absurd hblank (by decide)
  rw [List.cons_append, readSection, if_pos hc]
  simp only [hword.1, hword.2, hgoesOn, Bool.false_eq_true, if_false]

/-- No name is that of both kinds of sections. -/
theorem not_dataSection_of_conditional {name : String}
    (h : conditionalSections.contains name = true) : dataSections.contains name = false := by
  have hmem : name ∈ conditionalSections := by simpa using h
  simp only [conditionalSections, List.mem_cons, List.not_mem_nil, or_false] at hmem
  rcases hmem with rfl | rfl | rfl <;> decide

/-- A remark is read as its token. -/
theorem readsAs {r : Remark} (h : r.WellFormed) : ReadsAs r.source [r.token] := by
  cases r with
  | comment body => exact readsAs_comment h
  | doctype keyword body => exact readsAs_doctype h.1 h.2.1 h.2.2.1 h.2.2.2
  | instruction body =>
      change ReadsAs ('<' :: ('?' :: (body ++ ['>']))) _
      refine readsAs_of_readMarkup fun rest => ?_
      have htext : body ++ ['>'] ++ rest = body ++ '>' :: rest := by simp
      change Except.ok (some (readUntil (closeMark '>') .instruction .markup
        (body ++ ['>'] ++ rest))) = _
      rw [htext, readUntil, splitAtMark_closeMark h]
      rfl
  | conditional keyword tail =>
      obtain ⟨hkeyword, hname, hbody⟩ := h
      change ReadsAs ('<' :: ('!' :: '[' :: (keyword ++ (tail ++ "]>".toList)))) _
      refine readsAs_of_readMarkup fun rest => ?_
      have htext : keyword ++ (tail ++ "]>".toList) ++ rest =
          keyword ++ (tail ++ ']' :: '>' :: rest) := by simp
      have hsplit := splitAtMark_conditional hbody rest
      rw [List.append_assoc] at hsplit
      change (readSection .markup (keyword ++ (tail ++ "]>".toList) ++ rest)).map some = _
      rw [htext, readSection_keyword hkeyword, not_dataSection_of_conditional hname, hname,
        if_neg (by simp), if_pos rfl, readUntil, ← List.singleton_append (l := '>' :: rest), hsplit]
      rfl
  | dataSection keyword tail =>
      obtain ⟨hkeyword, hname, hbody⟩ := h
      change ReadsAs ('<' :: ('!' :: '[' :: (keyword ++ (tail ++ "]]>".toList)))) _
      refine readsAs_of_readMarkup fun rest => ?_
      have htext : keyword ++ (tail ++ "]]>".toList) ++ rest =
          keyword ++ (tail ++ ']' :: ']' :: '>' :: rest) := by simp
      have hmark : ']' :: ']' :: '>' :: rest = [']', ']'] ++ '>' :: rest := rfl
      have hsplit := splitAtMark_data hbody rest
      rw [List.append_assoc] at hsplit
      change (readSection .markup (keyword ++ (tail ++ "]]>".toList) ++ rest)).map some = _
      rw [htext, readSection_keyword hkeyword, hname, if_pos rfl, readUntil, hmark, hsplit]
      rfl

/-! ### Laying out -/

/-- Where nothing is open, a remark ends the inline run and is written. -/
theorem step_token {s : State} (hs : s.IsFlow) (r : Remark) :
    s.step r.token = s.flush.emitLines r.printed := by
  have hblock : s.step r.token = s.block r.token.piece := by
    cases r <;> rfl
  rw [hblock, State.block, hs.1, piece_token]

theorem isFlow_step_token {s : State} (hs : s.IsFlow) (r : Remark) : (s.step r.token).IsFlow := by
  obtain ⟨lines, hlines, -⟩ := s.flush.emitLines_spec r.printed
  rw [step_token hs, hlines]
  exact hs.flush

end Remark

/-! ## Texts with remarks -/

/-- A part of a text: a remark, or another piece that leaves nothing open. -/
inductive Part
  | piece (p : Piece)
  | remark (r : Remark)
  deriving Repr, DecidableEq

namespace Part

def WellFormed : Part → Prop
  | piece p => p.WellFormed
  | remark r => r.WellFormed

/-- A part as a piece of the text. -/
def toPiece : Part → Piece
  | piece p => p
  | remark r => .markup r.source [r.token]

def remark? : Part → Option Remark
  | piece _ => none
  | remark r => some r

theorem toPiece_wellFormed {part : Part} (h : part.WellFormed) : part.toPiece.WellFormed := by
  cases part with
  | piece p => exact h
  | remark r => exact ⟨r.readsAs h, fun s hs => r.isFlow_step_token hs⟩

end Part

/-- Plain text leaves nothing open. -/
theorem State.IsFlow.dataTokens {s : State} (hs : s.IsFlow) (text : List Char) :
    ((dataTokens text).foldl State.step s).IsFlow := by
  rw [Markup.dataTokens]
  split
  · exact hs
  · rw [List.foldl_cons, List.foldl_nil, hs.step_data]
    exact hs.flow text

/-- All remarks are found among the lines that a text adds, which may begin with plain text
that is still to be read. -/
theorem written_spell {parts : List Part} (hparts : ∀ p ∈ parts, p.WellFormed) (front : List Char)
    {s : State} (hs : s.IsFlow) :
    ∃ new, ((spell front (parts.map Part.toPiece)).foldl State.step s).lines = s.lines ++ new ∧
      WrittenInOrder ((parts.filterMap Part.remark?).map Remark.printed) new := by
  induction parts generalizing front s with
  | nil =>
      obtain ⟨new, hnew⟩ := s.lines_isPrefix_foldl_step (dataTokens front)
      exact ⟨new, hnew.symm, trivial⟩
  | cons part rest ih =>
      obtain ⟨hpart, hrest⟩ := List.forall_mem_cons.mp hparts
      have hread := hs.dataTokens front
      obtain ⟨first, hfirst⟩ := s.lines_isPrefix_foldl_step (dataTokens front)
      cases part with
      | piece p =>
          cases p with
          | word text | gap text => exact ih hrest (front ++ text) hs
          | markup source ts =>
              obtain ⟨middle, hmiddle⟩ :=
                ((dataTokens front).foldl State.step s).lines_isPrefix_foldl_step ts
              obtain ⟨later, hlater, hwritten⟩ := ih hrest [] (hpart.2 _ hread)
              refine ⟨first ++ (middle ++ later), ?_, ?_⟩
              · simp only [List.map_cons, Part.toPiece, spell, List.foldl_append]
                rw [hlater, ← hmiddle, ← hfirst]
                simp only [List.append_assoc]
              · exact (hwritten.append_left middle).append_left first
      | remark r =>
          have hnext := r.isFlow_step_token hread
          obtain ⟨later, hlater, hwritten⟩ := ih hrest [] hnext
          have hfold : (spell front ((Part.remark r :: rest).map Part.toPiece)).foldl State.step s =
              (spell [] (rest.map Part.toPiece)).foldl State.step
                (((dataTokens front).foldl State.step s).step r.token) := by
            simp only [List.map_cons, Part.toPiece, spell, List.foldl_append, List.foldl_cons,
              List.foldl_nil]
          rw [hfold, hlater, r.step_token hread, State.lines_emitLines]
          generalize (dataTokens front).foldl State.step s = t at hfirst ⊢
          obtain ⟨run, hrun⟩ := t.lines_isPrefix_flush
          refine ⟨first ++ (run ++ t.flush.gapLine) ++
            verbatimLines t.flush.depth r.printed ++ later, ?_, ?_⟩
          · rw [← hrun, ← hfirst]
            simp only [List.append_assoc]
          · exact ⟨_, _, _, rfl, hwritten⟩

/-- **Remarks are printed as they are written**, except for one bracket: in a text of remarks
and of other pieces that leave nothing open, every remark is found in the output, in one piece
and in the order of the text.  Of a section of character data the output has all but the
second of the square brackets that close it. -/
theorem prettify_remarks (width : Int) {parts : List Part} (hparts : ∀ p ∈ parts, p.WellFormed) :
    ∃ output, prettify width (textOf (parts.map Part.toPiece)) = .ok output ∧
      OccurInOrder ((parts.filterMap Part.remark?).map Remark.printed) output := by
  have hpieces : ∀ p ∈ parts.map Part.toPiece, p.WellFormed := by
    intro p hp
    obtain ⟨part, hpart, rfl⟩ := List.mem_map.mp hp
    exact Part.toPiece_wellFormed (hparts part hpart)
  have htokens := tokens_textOf hpieces
  obtain ⟨new, hnew, hwritten⟩ := written_spell hparts [] (State.isFlow_start width)
  generalize spell [] (parts.map Part.toPiece) = ts at htokens hnew
  obtain ⟨extra, hextra⟩ := (ts.foldl State.step (State.start width)).lines_isPrefix_finish
  have hlines : layOut width ts = new ++ extra := by
    rw [layOut, ← hextra, hnew]
    rfl
  have henclosed : ∀ text ∈ (parts.filterMap Part.remark?).map Remark.printed, Enclosed text := by
    intro text htext
    obtain ⟨r, -, rfl⟩ := List.mem_map.mp htext
    exact r.enclosed_printed
  refine ⟨printLines (layOut width ts), by rw [prettify, htokens]; rfl, ?_⟩
  rw [hlines, printLines]
  exact ((hwritten.append_right extra).trimLines henclosed).occurInOrder.append_right _

/-- A page that has a remark of every kind. -/
def remarkedPage : List Part :=
  [.remark (.doctype "DOCTYPE".toList " html".toList),
    .piece (Phrase.tag ⟨"p".toList, [], [], false⟩).piece, .piece (.word "one".toList),
    .piece (.gap ['\n']), .remark (.comment " two\n > ".toList),
    .piece (Phrase.endTag "p".toList).piece, .remark (.instruction "three?".toList),
    .remark (.conditional "if".toList " IE".toList), .piece (.word "four".toList),
    .remark (.conditional "endif".toList []),
    .remark (.dataSection "CDATA".toList "[a > b".toList)]

/-- The remarks are printed as they stand there, but for one bracket of the last. -/
theorem prettify_remarks_remarkedPage :
    (∀ p ∈ remarkedPage, p.WellFormed) ∧
      textOf (remarkedPage.map Part.toPiece) =
        ("<!DOCTYPE html><p>one\n<!-- two\n > --></p><?three?>" ++
          "<![if IE]>four<![endif]><![CDATA[a > b]]>").toList ∧
      ∃ output, prettify 80 (textOf (remarkedPage.map Part.toPiece)) = .ok output ∧
        OccurInOrder ["<!DOCTYPE html>".toList, "<!-- two\n > -->".toList, "<?three?>".toList,
          "<![if IE]>".toList, "<![endif]>".toList, "<![CDATA[a > b]>".toList] output := by
  have hnone : ∀ {start body : List Char} {c : Char}, c ∈ start → c ∉ body → ¬ HasMark start body :=
    fun hc hbody h => hbody (h.isInfix.subset hc)
  have hname : IsTagName "p".toList := ⟨⟨'p', [], rfl, by decide⟩, by simp [isTagNameChar, isBlank]⟩
  have hopen : (Phrase.tag ⟨"p".toList, [], [], false⟩).WellFormed :=
    ⟨⟨hname, by simp, by simp [IsSpace]⟩, fun _ => by decide⟩
  have hclose : (Phrase.endTag "p".toList).WellFormed := ⟨hname, by decide⟩
  have hchars : ∀ {rest : List Char}, rest.all isSectionNameChar = true →
      ∀ d ∈ rest, isSectionNameChar d = true := List.all_eq_true.mp
  have hif : (Remark.conditional "if".toList " IE".toList).WellFormed :=
    ⟨⟨⟨'i', ['f'], rfl, by decide, hchars rfl⟩, by simp [isSectionNameChar]⟩, by decide,
      hnone List.mem_cons_self (by simp)⟩
  have hendif : (Remark.conditional "endif".toList []).WellFormed :=
    ⟨⟨⟨'e', "ndif".toList, rfl, by decide, hchars rfl⟩, by simp⟩, by decide,
      hnone List.mem_cons_self (by simp)⟩
  have hdata : (Remark.dataSection "CDATA".toList "[a > b".toList).WellFormed :=
    ⟨⟨⟨'C', "DATA".toList, rfl, by decide, hchars rfl⟩, by simp [isSectionNameChar]⟩, by decide,
      fun _ _ => hnone List.mem_cons_self (by simp)⟩
  have hcomment : (Remark.comment " two\n > ".toList).WellFormed :=
    hnone List.mem_cons_self (by simp)
  have hword : ∀ w ∈ ["one".toList, "four".toList], IsWord w := by
    simp [IsWord, isBlank]
  have hparts : ∀ p ∈ remarkedPage, p.WellFormed := by
    simp only [remarkedPage, List.forall_mem_cons, Part.WellFormed]
    exact ⟨⟨rfl, by decide, List.all_eq_true.mp (by decide), by simp⟩, Item.phrase_wellFormed hopen,
      hword _ (by simp), by simp [Piece.WellFormed, IsGap, isLayoutBlank], hcomment,
      Item.phrase_wellFormed hclose, by simp [Remark.WellFormed], hif, hword _ (by simp), hendif,
      hdata, by simp⟩
  have hprinted : (remarkedPage.filterMap Part.remark?).map Remark.printed =
      ["<!DOCTYPE html>".toList, "<!-- two\n > -->".toList, "<?three?>".toList,
        "<![if IE]>".toList, "<![endif]>".toList, "<![CDATA[a > b]>".toList] := by
    decide +kernel
  refine ⟨hparts, by decide +kernel, ?_⟩
  rw [← hprinted]
  exact prettify_remarks 80 hparts

end Folio.Markup
