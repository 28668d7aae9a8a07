import Folio.Proofs.Markup.Regions
import Folio.Proofs.Markup.Reindent

/-!
# The parts of a text and where they are placed

The tokens of a text make up its *parts* (`partsOf`): words, references, tags, comments and the
like, whole verbatim elements, and the bodies of scripts.  A printed text is made of parts too,
each with a gap of spaces and line ends before it (`Placed`).

No gap has more than one blank line, and parts meet in such a way that the line ends of two of
them, or of a part and a gap, are never adjacent (`Laid`).  So wherever two empty lines follow one
another, they belong to one part (`Laid.exists_of_emptyLines`).
-/

namespace Folio.Markup

open Text

/-! ## Parts -/

/-- What a part of a text is; a remark is a comment, a declaration or a marked section. -/
inductive PartKind
  | word
  | reference
  | tag
  | remark
  | instruction
  | verbatim
  | scriptBody
  deriving Repr, DecidableEq

/-- A part of a text as it was written. -/
structure TextPart where
  kind : PartKind
  text : List Char
  deriving Repr, DecidableEq

/-- A text with characters, of which neither the first nor the last is a line end. -/
structure Edged (text : List Char) : Prop where
  ne_nil : text ≠ []
  head : text.head? ≠ some '\n'
  last : text.getLast? ≠ some '\n'

theorem Enclosed.edged {text : List Char} (h : Enclosed text) : Edged text := by
  obtain ⟨inner, rfl⟩ := h
  exact ⟨by simp, by simp, by rw [List.getLast?_concat]; decide⟩

theorem edged_of_not_mem {text : List Char} (hne : text ≠ []) (h : '\n' ∉ text) : Edged text :=
  ⟨hne, fun hhead => h (List.mem_of_mem_head? hhead),
    fun hlast => h (List.mem_of_mem_getLast? hlast)⟩

theorem enclosed_closing (name : String) : Enclosed (closing name) :=
  ⟨'/' :: name.toList, rfl⟩

namespace TextPart

/-- A part is printed as it was written, except that the body of a script is indented anew and
stands on lines of its own. -/
def Prints (p : TextPart) (printed : List Char) : Prop :=
  match p.kind with
  | .scriptBody => ∃ depth, printed = reindented depth p.text
  | _ => printed = p.text

/-- What is known of the text of a part from what the part is. -/
def WellFormed (p : TextPart) : Prop :=
  match p.kind with
  | .word => p.text ≠ [] ∧ '\n' ∉ p.text
  | .reference => p.text ≠ [] ∧ '\n' ∉ p.text
  | .tag => Enclosed p.text
  | .remark => Enclosed p.text
  | .instruction => Enclosed p.text
  | .verbatim => ∃ rest, p.text = '<' :: rest
  | .scriptBody => True

/-- A part that can stand in a line with others. -/
structure Inline (p : TextPart) : Prop where
  kind : p.kind = .word ∨ p.kind = .reference ∨ p.kind = .tag
  wellFormed : p.WellFormed

theorem Inline.edged {p : TextPart} (h : p.Inline) : Edged p.text := by
  have hwell := h.wellFormed
  unfold WellFormed at hwell
  rcases h.kind with hkind | hkind | hkind <;> rw [hkind] at hwell
  · exact edged_of_not_mem hwell.1 hwell.2
  · exact edged_of_not_mem hwell.1 hwell.2
  · exact hwell.edged

theorem Inline.prints {p : TextPart} (h : p.Inline) : p.Prints p.text := by
  unfold Prints
  rcases h.kind with hkind | hkind | hkind <;> rw [hkind]

/-- A part that has a line end is neither a word nor a reference. -/
theorem kind_of_newline {p : TextPart} (h : p.WellFormed) {printed : List Char}
    (hprints : p.Prints printed) (hmem : '\n' ∈ printed) :
    p.kind ∈ [PartKind.tag, .remark, .instruction, .verbatim, .scriptBody] := by
  unfold WellFormed at h
  unfold Prints at hprints
  cases hkind : p.kind with
  | word => rw [hkind] at h hprints; exact absurd (hprints ▸ hmem) h.2
  | reference => rw [hkind] at h hprints; exact absurd (hprints ▸ hmem) h.2
  | _ => simp

end TextPart

/-! ## The parts of tokens -/

/-- The parts of a script element: no body if it is blank. -/
def scriptParts (source body close : List Char) : List TextPart :=
  ⟨.tag, source⟩ ::
    ((if (trimBy isLayoutBlank body).isEmpty then [] else [⟨.scriptBody, body⟩]) ++
      [⟨.tag, close⟩])

/-- The parts of a token outside of verbatim and script elements; the start tag of one of these
is a part of it. -/
def Token.parts : Token → List TextPart
  | .startTag name source => if isRegion name then [] else [⟨.tag, source⟩]
  | .emptyTag _ source => [⟨.tag, source⟩]
  | .endTag name => [⟨.tag, closing name⟩]
  | .data text => (wordsBy isLayoutBlank text).map fun word => ⟨.word, word⟩
  | .entity name => [⟨.reference, (Token.entity name).piece⟩]
  | .charCode digits => [⟨.reference, (Token.charCode digits).piece⟩]
  | .instruction text => [⟨.instruction, (Token.instruction text).piece⟩]
  | token => [⟨.remark, token.piece⟩]

/-- What is open, with the tag that opened it and what has been read since. -/
structure Opened where
  region : Region
  source : List Char
  body : List Char
  deriving Repr, DecidableEq

namespace Opened

/-- Before the first token nothing is open. -/
def start : Opened :=
  ⟨.flow, [], []⟩

def after (o : Opened) (token : Token) : Opened :=
  if o.region = .flow then ⟨o.region.after token, token.piece, []⟩
  else ⟨o.region.after token, o.source, o.body ++ token.piece⟩

/-- The parts of what is open when it is closed. -/
def closed (o : Opened) (close : List Char) : List TextPart :=
  match o.region with
  | .flow => []
  | .verbatim _ _ => [⟨.verbatim, o.source ++ o.body ++ close⟩]
  | .script _ => scriptParts o.source o.body close

/-- The parts that a token completes. -/
def adds (o : Opened) (token : Token) : List TextPart :=
  if o.region = .flow then token.parts
  else if o.region.after token = .flow then o.closed token.piece
  else []

/-- The parts of what is still open at the end of a text; a script is closed there. -/
def rest (o : Opened) : List TextPart :=
  match o.region with
  | .script element => o.closed (closing element)
  | _ => o.closed []

end Opened

/-- The parts of tokens that follow when something may be open. -/
def partsFrom : Opened → List Token → List TextPart
  | o, [] => o.rest
  | o, token :: ts => o.adds token ++ partsFrom (o.after token) ts

/-- The parts of a text, given its tokens. -/
def partsOf (ts : List Token) : List TextPart :=
  partsFrom .start ts

/-! ### Their form -/

theorem Token.wellFormed_parts {token : Token} (h : token.Tidy) :
    ∀ p ∈ token.parts, p.WellFormed := by
  cases token with
  | startTag name source =>
      rw [parts]
      split
      · simp
      · exact List.forall_mem_singleton.mpr h
  | emptyTag name source => exact List.forall_mem_singleton.mpr h
  | endTag name => exact List.forall_mem_singleton.mpr (enclosed_closing name)
  | data text =>
      intro p hp
      obtain ⟨word, hword, rfl⟩ := List.mem_map.mp hp
      obtain ⟨hne, hblank⟩ := of_mem_wordsBy hword
      exact ⟨hne, fun hmem => absurd (hblank '\n' hmem) (by decide)⟩
  | entity name =>
      have hname : '\n' ∉ name := h
      exact List.forall_mem_singleton.mpr ⟨by simp [piece], by simp [piece, hname]⟩
  | charCode digits =>
      have hdigits : '\n' ∉ digits := h
      exact List.forall_mem_singleton.mpr ⟨by simp [piece], by simp [piece, hdigits]⟩
  | comment text =>
      exact List.forall_mem_singleton.mpr ⟨"!--".toList ++ text ++ "--".toList, by simp [piece]⟩
  | declaration text =>
      exact List.forall_mem_singleton.mpr ⟨"!".toList ++ text, by simp [piece]⟩
  | markedSection text =>
      exact List.forall_mem_singleton.mpr ⟨"![".toList ++ text ++ "]".toList, by simp [piece]⟩
  | instruction text =>
      exact List.forall_mem_singleton.mpr ⟨"?".toList ++ text, by simp [piece]⟩

namespace Opened

variable {o : Opened}

/-- What is open was opened by a tag. -/
def WellFormed (o : Opened) : Prop :=
  o.region ≠ .flow → Enclosed o.source

theorem WellFormed.after (ho : o.WellFormed) {token : Token} (h : token.Tidy) :
    (o.after token).WellFormed := by
  unfold Opened.after
  split
  · rename_i hflow
    intro hopen
    change Enclosed token.piece
    rw [hflow] at hopen
    cases token with
    | startTag name source => exact h
    | _ => exact absurd rfl hopen
  · rename_i hopen
    exact fun _ => ho hopen

theorem WellFormed.closed (ho : o.WellFormed) {close : List Char}
    (hclose : ∀ element, o.region = .script element → Enclosed close) :
    ∀ p ∈ o.closed close, p.WellFormed := by
  unfold Opened.closed
  cases hregion : o.region with
  | flow => simp
  | verbatim element nesting =>
      obtain ⟨inner, hsource⟩ := ho (by simp [hregion])
      exact List.forall_mem_singleton.mpr
        ⟨inner ++ ['>'] ++ o.body ++ close, by simp [hsource]⟩
  | script element =>
      have hsource := ho (by simp [hregion])
      refine List.forall_mem_cons.mpr ⟨hsource, List.forall_mem_append.mpr ⟨?_, ?_⟩⟩
      · split
        · simp
        · exact List.forall_mem_singleton.mpr trivial
      · exact List.forall_mem_singleton.mpr (hclose element hregion)

/-- A script is closed by the end tag of its element. -/
theorem eq_endTag_of_script {element : String} {token : Token}
    (h : (Region.script element).after token = .flow) : token = .endTag element := by
  cases token with
  | endTag name =>
      rw [Region.after] at h
      split at h
      · rename_i hname
        rw [hname]
      · cases h
  | _ => cases h

theorem WellFormed.adds (ho : o.WellFormed) {token : Token} (h : token.Tidy) :
    ∀ p ∈ o.adds token, p.WellFormed := by
  unfold Opened.adds
  split
  · exact Token.wellFormed_parts h
  · split
    · rename_i hclosed
      refine ho.closed fun element helement => ?_
      rw [helement] at hclosed
      rw [eq_endTag_of_script hclosed]
      exact enclosed_closing element
    · simp

theorem WellFormed.rest (ho : o.WellFormed) : ∀ p ∈ o.rest, p.WellFormed := by
  unfold Opened.rest
  split
  · exact ho.closed fun _ _ => enclosed_closing _
  · rename_i hnone
    exact ho.closed fun element helement => absurd helement (hnone element)

end Opened

theorem wellFormed_partsFrom {o : Opened} (ho : o.WellFormed) {ts : List Token} (hts : Tidy ts) :
    ∀ p ∈ partsFrom o ts, p.WellFormed := by
  induction ts generalizing o with
  | nil => exact ho.rest
  | cons token ts ih =>
      obtain ⟨htoken, hrest⟩ := List.forall_mem_cons.mp hts
      exact List.forall_mem_append.mpr ⟨ho.adds htoken, ih (ho.after htoken) hrest⟩

theorem wellFormed_partsOf {ts : List Token} (hts : Tidy ts) : ∀ p ∈ partsOf ts, p.WellFormed :=
  wellFormed_partsFrom (fun hopen => absurd rfl hopen) hts

/-! ## Places -/

/-- A part as it is printed, and what stands between it and the part before it. -/
structure Placed where
  gap : List Char
  part : TextPart
  printed : List Char
  deriving Repr, DecidableEq

namespace Placed

def text (p : Placed) : List Char :=
  p.gap ++ p.printed

/-- A gap holds one blank line at most, and there is none before a part that begins with a line
end. -/
structure WellFormed (p : Placed) : Prop where
  gap : ∀ c ∈ p.gap, c = ' ' ∨ c = '\n'
  feeds : p.gap.count '\n' ≤ 2
  prints : p.part.Prints p.printed
  ne_nil : p.printed ≠ []
  head : p.printed.head? = some '\n' → p.gap = []

/-- What follows a part that ends with a line end does not begin with one. -/
def Parted (p q : Placed) : Prop :=
  p.printed.getLast? = some '\n' → q.gap = [] ∧ q.printed.head? ≠ some '\n'

end Placed

/-- Parts one after the other, as they may be printed. -/
structure Laid (ps : List Placed) : Prop where
  placed : ∀ p ∈ ps, p.WellFormed
  parted : ps.IsChain Placed.Parted

/-- The text that placed parts make up. -/
def laidText (ps : List Placed) : List Char :=
  ps.flatMap Placed.text

@[simp] theorem laidText_nil : laidText [] = [] := rfl

@[simp] theorem laidText_cons (p : Placed) (ps : List Placed) :
    laidText (p :: ps) = p.gap ++ p.printed ++ laidText ps := rfl

@[simp] theorem laidText_append (ps qs : List Placed) :
    laidText (ps ++ qs) = laidText ps ++ laidText qs :=
  List.flatMap_append

/-- The last part does not end with a line end, so that more lines may follow. -/
def EndsInLine (ps : List Placed) : Prop :=
  ∀ p ∈ ps.getLast?, p.printed.getLast? ≠ some '\n'

/-! ## Empty lines -/

/-- Two empty lines, and the end of the line before them. -/
def emptyLines : List Char :=
  ['\n', '\n', '\n']

/-- Empty lines stand on one side of a seam that they do not cross. -/
theorem emptyLines_append {xs ys before after : List Char}
    (h : xs ++ ys = before ++ (emptyLines ++ after))
    (hseam : xs.getLast? = some '\n' → ys.head? ≠ some '\n') :
    (∃ rest, xs = before ++ (emptyLines ++ rest)) ∨
      ∃ front, before = xs ++ front ∧ ys = front ++ (emptyLines ++ after) := by
  rcases List.append_eq_append_iff.mp h with ⟨front, hbefore, hys⟩ | ⟨inner, hxs, hafter⟩
  · exact .inr ⟨front, hbefore, hys⟩
  rcases List.append_eq_append_iff.mp hafter.symm with ⟨more, hlines, hys⟩ | ⟨rest, hinner, -⟩
  · -- both sides of the seam hold a part of the empty lines
    have hfeeds : ∀ c ∈ inner ++ more, c = '\n' := by
      rw [← hlines]
      simp [emptyLines]
    by_cases hinner : inner = []
    · refine .inr ⟨[], by simp [hxs, hinner], ?_⟩
      rw [hys, List.nil_append, hlines, hinner, List.nil_append]
    by_cases hmore : more = []
    · exact .inl ⟨[], by rw [hxs, hlines, hmore]; simp⟩
    · have hlast : xs.getLast? = some '\n' := by
        rw [hxs, List.getLast?_append_of_ne_nil _ hinner, List.getLast?_eq_some_getLast hinner,
          hfeeds _ (List.mem_append_left _ (List.getLast_mem hinner))]
      have hhead : ys.head? = some '\n' := by
        rw [hys, List.head?_append_of_ne_nil _ hmore, List.head?_eq_some_head hmore,
          hfeeds _ (List.mem_append_right _ (List.head_mem hmore))]
      exact absurd hhead (hseam hlast)
  · exact .inl ⟨rest, by rw [hxs, hinner]⟩

theorem Placed.WellFormed.exists_of_emptyLines {p : Placed} (h : p.WellFormed)
    {before rest : List Char} (htext : p.gap ++ p.printed = before ++ (emptyLines ++ rest)) :
    ∃ inner, p.printed = inner ++ (emptyLines ++ rest) ∧ before = p.gap ++ inner := by
  rcases emptyLines_append htext (fun hlast hhead => by rw [h.head hhead] at hlast; cases hlast)
    with ⟨more, hgap⟩ | ⟨inner, hbefore, hprinted⟩
  · have hfeeds := h.feeds
    rw [hgap, List.count_append, List.count_append] at hfeeds
    have hcount : emptyLines.count '\n' = 3 := rfl
    omega
  · exact ⟨inner, hprinted, hbefore⟩

theorem Laid.head?_laidText {p : Placed} {ps : List Placed} (h : Laid (p :: ps))
    (hlast : p.printed.getLast? = some '\n') : (laidText ps).head? ≠ some '\n' := by
  cases ps with
  | nil => simp
  | cons q ps =>
      obtain ⟨hgap, hhead⟩ := (List.isChain_cons_cons.mp h.parted).1 hlast
      rw [laidText_cons, hgap, List.nil_append,
        List.head?_append_of_ne_nil _ (h.placed q (by simp)).ne_nil]
      exact hhead

theorem Laid.tail {p : Placed} {ps : List Placed} (h : Laid (p :: ps)) : Laid ps :=
  ⟨fun q hq => h.placed q (List.mem_cons_of_mem _ hq), h.parted.tail⟩

/-- **Two empty lines belong to one part.** -/
theorem Laid.exists_of_emptyLines {ps : List Placed} (h : Laid ps) {before after : List Char}
    (htext : laidText ps = before ++ (emptyLines ++ after)) :
    ∃ front p back inner rest, ps = front ++ p :: back ∧
      p.printed = inner ++ (emptyLines ++ rest) ∧
      before = laidText front ++ (p.gap ++ inner) := by
  induction ps generalizing before with
  | nil => simp [emptyLines] at htext
  | cons p ps ih =>
      have hp := h.placed p List.mem_cons_self
      rw [laidText_cons] at htext
      have hseam : (p.gap ++ p.printed).getLast? = some '\n' →
          (laidText ps).head? ≠ some '\n' := by
        rw [List.getLast?_append_of_ne_nil _ hp.ne_nil]
        exact h.head?_laidText
      rcases emptyLines_append htext hseam with ⟨rest, hinside⟩ | ⟨front, hbefore, hlater⟩
      · obtain ⟨inner, hprinted, hinner⟩ := hp.exists_of_emptyLines hinside
        exact ⟨[], p, ps, inner, rest, rfl, hprinted, by simpa using hinner⟩
      · obtain ⟨others, q, back, inner, rest, rfl, hprinted, hinner⟩ := ih h.tail hlater
        refine ⟨p :: others, q, back, inner, rest, rfl, hprinted, ?_⟩
        rw [hbefore, hinner, laidText_cons, List.append_assoc (p.gap ++ p.printed)]

end Folio.Markup
