import Folio.Proofs.Markup.Marks
import Folio.Proofs.Markup.Pieces

/-!
# Reading tags

The grammar of complete tags: a name, attributes with values in double quotes,
and `>` or `/>`.  `readStartTag_text` and `readEndTag_name` say that the reader,
which tolerates much more, reads such a tag to its end and no further.
-/

namespace Folio.Markup

open Text

/-! ## Names -/

/-- The name of an element, in any case. -/
structure IsTagName (name : List Char) : Prop where
  letter : ∃ c rest, name = c :: rest ∧ isLetter c = true
  chars : ∀ c ∈ name, isTagNameChar c = true ∧ isBlank c = false

theorem isTagNameChar_ne_close {c : Char} (hc : isTagNameChar c = true) : c ≠ '>' := by
  rintro rfl
  simp [isTagNameChar] at hc

theorem isBlank_eq_false_of_isLetter {c : Char} (hc : isLetter c = true) : isBlank c = false := by
  rw [Bool.eq_false_iff]
  intro hblank
  have hrange : (decide (c.val ≥ 'A'.val ∧ c.val ≤ 'Z'.val) ||
      (decide (c.val ≥ 'a'.val) && decide (c.val ≤ 'z'.val))) = true := hc
  simp only [Bool.or_eq_true, Bool.and_eq_true, decide_eq_true_eq] at hrange
  simp only [isBlank, Bool.or_eq_true, Bool.and_eq_true, decide_eq_true_eq, beq_iff_eq] at hblank
  have hval : c.toNat = c.val.toNat := rfl
  rw [hval] at hblank
  rcases hrange with ⟨hlow, hhigh⟩ | ⟨hlow, hhigh⟩ <;>
    · rw [ge_iff_le, UInt32.le_iff_toNat_le] at *
      simp at *
      omega

theorem isLetter_ne {c : Char} (hc : isLetter c = true) : c ≠ '/' ∧ c ≠ '!' ∧ c ≠ '?' := by
  refine ⟨?_, ?_, ?_⟩ <;> rintro rfl <;> exact absurd hc (by decide)

theorem takeWhile_tagName {name : List Char} (h : IsTagName name) {tail : List Char}
    (htail : ∀ c ∈ tail.head?, isTagNameChar c = false) :
    (name ++ tail).takeWhile isTagNameChar = name ∧
      (name ++ tail).dropWhile isTagNameChar = tail := by
  have hname : ∀ c ∈ name, isTagNameChar c = true := fun c hc => (h.chars c hc).1
  rw [List.takeWhile_append_of_pos hname, List.dropWhile_append_of_pos hname]
  cases tail with
  | nil => simp
  | cons c tail => simp [htail c rfl]

/-! ## End tags -/

/-- The name of an end tag, if it has only characters of the strict kind. -/
theorem endTagName?_strict {name : List Char} (h : IsTagName name)
    (hchars : ∀ c ∈ name, isEndNameChar c = true) (rest : List Char) :
    endTagName? (name ++ '>' :: rest) = some name := by
  obtain ⟨c, tail, rfl, hc⟩ := h.letter
  have htail : ∀ d ∈ tail, isEndNameChar d = true := fun d hd => hchars d (by simp [hd])
  have hdrop : (c :: tail ++ '>' :: rest).dropWhile isBlank = c :: (tail ++ '>' :: rest) :=
    List.dropWhile_cons_of_neg (by simp [isBlank_eq_false_of_isLetter hc])
  simp only [endTagName?, hdrop, hc, Bool.true_and]
  rw [List.dropWhile_append_of_pos htail, List.takeWhile_append_of_pos htail]
  simp [isEndNameChar, blanksThen, closeMark, isBlank]

/-- A name with another character is no strict name. -/
theorem endTagName?_lax {name : List Char} (h : IsTagName name)
    (hchars : ¬ ∀ c ∈ name, isEndNameChar c = true) (rest : List Char) :
    endTagName? (name ++ '>' :: rest) = none := by
  obtain ⟨c, tail, rfl, hc⟩ := h.letter
  have hdrop : (c :: tail ++ '>' :: rest).dropWhile isBlank = c :: (tail ++ '>' :: rest) :=
    List.dropWhile_cons_of_neg (by simp [isBlank_eq_false_of_isLetter hc])
  have hletter : isEndNameChar c = true := by
    have halpha : c.isAlpha = true := hc
    have halphanum : c.isAlphanum = true := Bool.or_eq_true_iff.mpr (.inl halpha)
    simp [isEndNameChar, halphanum]
  have htail : ¬ ∀ d ∈ tail, isEndNameChar d = true := fun hall => hchars fun d hd =>
    (List.mem_cons.mp hd).elim (fun heq => heq ▸ hletter) (hall d)
  -- the first character outside the strict class is neither a blank nor the end of the tag
  obtain ⟨front, d, back, hsplit, hfront, hd⟩ :
      ∃ front d back, tail = front ++ d :: back ∧ (∀ e ∈ front, isEndNameChar e = true) ∧
        isEndNameChar d = false := by
    have happend := List.takeWhile_append_dropWhile (p := isEndNameChar) (l := tail)
    cases hback : tail.dropWhile isEndNameChar with
    | nil =>
        rw [hback, List.append_nil] at happend
        exact absurd (fun d hd => List.mem_takeWhile_imp (happend ▸ hd)) htail
    | cons d back =>
        rw [hback] at happend
        refine ⟨_, d, back, happend.symm, fun e he => List.mem_takeWhile_imp he, ?_⟩
        have hhead := List.head?_dropWhile_not isEndNameChar tail
        rw [hback] at hhead
        simpa using hhead
  have hmem : d ∈ c :: tail := by simp [hsplit]
  have hblank : isBlank d = false := (h.chars d hmem).2
  have hclose : d ≠ '>' := isTagNameChar_ne_close (h.chars d hmem).1
  simp only [endTagName?, hdrop, hc, Bool.true_and]
  rw [hsplit, List.append_assoc, List.dropWhile_append_of_pos hfront, List.cons_append,
    List.dropWhile_cons_of_neg (by simp [hd])]
  simp [blanksThen, hblank, closeMark, hclose]

theorem splitAtMark_tagName {name : List Char} (h : IsTagName name) (rest : List Char) :
    splitAtMark (closeMark '>') (name ++ '>' :: rest) = some (name, rest) :=
  splitAtMark_closeMark (fun c hc => isTagNameChar_ne_close (h.chars c hc).1) rest

/-- An end tag is read as such whatever element its name is of. -/
theorem readEndTag_name {name : List Char} (h : IsTagName name) (hlower : lower name = name)
    (rest : List Char) :
    readEndTag .markup (name ++ '>' :: rest) =
      .read [.endTag (String.ofList name)] .markup rest := by
  have hstop : ∀ c ∈ ('>' :: rest).head?, isTagNameChar c = false := by simp [isTagNameChar]
  have htake := (takeWhile_tagName h hstop).1
  rw [readEndTag, splitAtMark_tagName h]
  by_cases hchars : ∀ c ∈ name, isEndNameChar c = true
  · simp only [endTagName?_strict h hchars, hlower]
  · simp only [endTagName?_lax h hchars]
    obtain ⟨c, tail, rfl, hc⟩ := h.letter
    simp only [List.cons_append, hc, if_true]
    rw [← List.cons_append, htake, hlower]

/-- The end tag of a raw text element ends it. -/
theorem readEndTag_rawText {name : List Char} (h : IsTagName name) (hlower : lower name = name)
    (hchars : ∀ c ∈ name, isEndNameChar c = true) (rest : List Char) :
    readEndTag (.rawText (String.ofList name)) (name ++ '>' :: rest) =
      .read [.endTag (String.ofList name)] .markup rest := by
  rw [readEndTag, splitAtMark_tagName h]
  simp only [endTagName?_strict h hchars, hlower, if_true]

theorem readsAs_endTag {name : List Char} (h : IsTagName name) (hlower : lower name = name) :
    ReadsAs (closing (String.ofList name)) [.endTag (String.ofList name)] := by
  rw [closing, String.toList_ofList]
  refine readsAs_of_readMarkup fun rest => ?_
  change readMarkup .markup ('/' :: (name ++ ['>'] ++ rest)) = _
  rw [readMarkup, List.append_assoc, List.singleton_append, readEndTag_name h hlower rest]

/-! ## Attributes -/

/-- An attribute with its value in double quotes, and the white space in front of
it and around its equals sign. -/
structure Attribute where
  before : List Char
  name : List Char
  afterName : List Char
  afterSign : List Char
  value : List Char
  deriving Repr, DecidableEq

/-- A character that may stand in the name of an attribute. -/
def isAttributeNameChar (c : Char) : Bool :=
  !(isBlank c || c == '/' || c == '=' || c == '>' || c == '"' || c == '\'')

/-- White space, possibly none. -/
def IsSpace (text : List Char) : Prop :=
  ∀ c ∈ text, isLayoutBlank c = true

namespace Attribute

structure WellFormed (a : Attribute) : Prop where
  before : IsGap a.before
  name_ne : a.name ≠ []
  name : ∀ c ∈ a.name, isAttributeNameChar c = true
  afterName : IsSpace a.afterName
  afterSign : IsSpace a.afterSign
  value : ∀ c ∈ a.value, c ≠ '"'

/-- An attribute as it is written, from its name on. -/
def core (a : Attribute) : List Char :=
  a.name ++ (a.afterName ++ '=' :: (a.afterSign ++ '"' :: (a.value ++ ['"'])))

/-- An attribute as it is written. -/
def text (a : Attribute) : List Char :=
  a.before ++ a.core

end Attribute

theorem IsSpace.blank {s : List Char} (h : IsSpace s) : ∀ c ∈ s, isBlank c = true :=
  fun c hc => isBlank_of_isLayoutBlank (h c hc)

theorem afterFirst_append {mark : Char} {value : List Char} (hvalue : ∀ c ∈ value, c ≠ mark)
    (rest : List Char) : afterFirst mark (value ++ mark :: rest) = some rest := by
  induction value with
  | nil => simp [afterFirst]
  | cons c value ih =>
      have hc : c ≠ mark := hvalue c (List.mem_cons_self ..)
      simp [afterFirst, hc, ih fun d hd => hvalue d (List.mem_cons_of_mem _ hd)]

/-- Blanks are skipped up to a character that is none. -/
theorem dropWhile_blank {s : List Char} (hs : IsSpace s) {c : Char} (hc : isBlank c = false)
    (rest : List Char) : (s ++ c :: rest).dropWhile isBlank = c :: rest := by
  rw [List.dropWhile_append_of_pos hs.blank, List.dropWhile_cons_of_neg (by simp [hc])]

theorem value?_quoted {afterName afterSign value : List Char} (hname : IsSpace afterName)
    (hsign : IsSpace afterSign) (hvalue : ∀ c ∈ value, c ≠ '"') (rest : List Char) :
    value? (afterName ++ '=' :: (afterSign ++ '"' :: (value ++ '"' :: rest))) = some rest := by
  have hdrop := dropWhile_blank hname (c := '=') (by decide) (afterSign ++ '"' :: (value ++ '"' :: rest))
  have hstop : ∀ c ∈ (afterSign ++ '"' :: (value ++ '"' :: rest)).head?, (c == '=') = false := by
    cases afterSign with
    | nil => simp
    | cons d afterSign =>
        have hd := hsign d (List.mem_cons_self ..)
        intro c hc
        obtain rfl : d = c := by simpa using hc
        rw [beq_eq_false_iff_ne]
        rintro rfl
        exact absurd hd (by decide)
  have hmarks : ∀ t : List Char, (∀ c ∈ t.head?, (c == '=') = false) →
      ('=' :: t).takeWhile (· == '=') = ['='] ∧ ('=' :: t).dropWhile (· == '=') = t := by
    intro t ht
    cases t with
    | nil => simp
    | cons c t => simp [ht c rfl]
  obtain ⟨htake, hdropMarks⟩ := hmarks _ hstop
  have hstart := dropWhile_blank hsign (c := '"') (by decide) (value ++ '"' :: rest)
  simp only [value?, hdrop, htake, hdropMarks, hstart]
  simp [afterFirst_append hvalue]

/-! ## The inside of a start tag -/

/-- The end mark of a start tag. -/
def closeOf (closed : Bool) : List Char :=
  if closed then ['/', '>'] else ['>']

/-- What stands between the name of a start tag and what follows the tag. -/
def insideOf (attributes : List Attribute) (space : List Char) (closed : Bool)
    (rest : List Char) : List Char :=
  attributes.flatMap Attribute.text ++ (space ++ (closeOf closed ++ rest))

/-- The inside of a start tag without the white space that it begins with. -/
def strippedOf (attributes : List Attribute) (space : List Char) (closed : Bool)
    (rest : List Char) : List Char :=
  match attributes with
  | [] => closeOf closed ++ rest
  | a :: others => a.core ++ insideOf others space closed rest

theorem consumed_append (s rest : List Char) : consumed (s ++ rest) rest = s := by
  rw [consumed, List.length_append, Nat.add_sub_cancel, List.take_left']
  rfl

theorem skipSeparators_blank {s : List Char} (hs : IsSpace s) (rest : List Char) :
    skipSeparators (s ++ rest) = skipSeparators rest := by
  induction s with
  | nil => rfl
  | cons c s ih =>
      rw [List.cons_append, skipSeparators, if_pos (hs.blank c (List.mem_cons_self ..)),
        ih fun d hd => hs d (List.mem_cons_of_mem _ hd)]

theorem skipSeparators_close (closed : Bool) (rest : List Char) :
    skipSeparators (closeOf closed ++ rest) = closeOf closed ++ rest := by
  cases closed <;> simp [closeOf, skipSeparators, isBlank]

theorem Attribute.core_last (a : Attribute) : ∃ front, a.core = front ++ ['"'] :=
  ⟨a.name ++ (a.afterName ++ '=' :: (a.afterSign ++ '"' :: a.value)), by simp [Attribute.core]⟩

theorem Attribute.WellFormed.core_head {a : Attribute} (h : a.WellFormed) :
    ∃ c tail, a.core = c :: tail ∧ isAttributeNameChar c = true := by
  obtain ⟨c, tail, htail⟩ := List.exists_cons_of_ne_nil h.name_ne
  exact ⟨c, _, by rw [Attribute.core, htail]; rfl, h.name c (by simp [htail])⟩

theorem isAttributeNameChar_spec {c : Char} (h : isAttributeNameChar c = true) :
    isBlank c = false ∧ c ≠ '/' ∧ c ≠ '=' ∧ c ≠ '>' := by
  simp [isAttributeNameChar] at h
  tauto

section

variable {attributes : List Attribute} {space : List Char} {closed : Bool}

/-- The white space that the inside of a start tag begins with. -/
def gapOf (attributes : List Attribute) (space : List Char) : List Char :=
  match attributes with
  | [] => space
  | a :: _ => a.before

theorem insideOf_eq (attributes : List Attribute) (space : List Char) (closed : Bool)
    (rest : List Char) :
    insideOf attributes space closed rest =
      gapOf attributes space ++ strippedOf attributes space closed rest := by
  cases attributes with
  | nil => rfl
  | cons a others => simp [insideOf, gapOf, strippedOf, Attribute.text]

theorem isSpace_gapOf (hattributes : ∀ a ∈ attributes, a.WellFormed) (hspace : IsSpace space) :
    IsSpace (gapOf attributes space) := by
  cases attributes with
  | nil => exact hspace
  | cons a others => exact (hattributes a (List.mem_cons_self ..)).before.2

theorem skipSeparators_stripped (hattributes : ∀ a ∈ attributes, a.WellFormed)
    (rest : List Char) :
    skipSeparators (strippedOf attributes space closed rest) =
      strippedOf attributes space closed rest := by
  cases attributes with
  | nil => exact skipSeparators_close closed rest
  | cons a others =>
      obtain ⟨c, tail, hcore, hc⟩ := (hattributes a (List.mem_cons_self ..)).core_head
      obtain ⟨hblank, hslash, -, -⟩ := isAttributeNameChar_spec hc
      simp [strippedOf, hcore, skipSeparators, hblank, hslash]

theorem skipSeparators_inside (hattributes : ∀ a ∈ attributes, a.WellFormed)
    (hspace : IsSpace space) (rest : List Char) :
    skipSeparators (insideOf attributes space closed rest) =
      strippedOf attributes space closed rest := by
  rw [insideOf_eq, skipSeparators_blank (isSpace_gapOf hattributes hspace),
    skipSeparators_stripped hattributes]

/-- A character after which an attribute may begin. -/
def mayPrecede (prev : Char) : Bool :=
  isBlank prev || prev == '/' || prev == '\'' || prev == '"'

theorem attribute?_core {a : Attribute} (ha : a.WellFormed)
    (hattributes : ∀ a ∈ attributes, a.WellFormed) (hspace : IsSpace space) {prev : Char}
    (hprev : mayPrecede prev = true) (rest : List Char) :
    attribute? prev (a.core ++ insideOf attributes space closed rest) =
      some (strippedOf attributes space closed rest) := by
  obtain ⟨c, name, hname⟩ := List.exists_cons_of_ne_nil ha.name_ne
  have hchar : isAttributeNameChar c = true := ha.name c (by simp [hname])
  obtain ⟨hblank, hslash, -, hclose⟩ := isAttributeNameChar_spec hchar
  let after := a.afterName ++ '=' :: (a.afterSign ++ '"' :: (a.value ++ '"' ::
    insideOf attributes space closed rest))
  have hcore : a.core ++ insideOf attributes space closed rest = c :: (name ++ after) := by
    simp [Attribute.core, hname, after]
  have hinName : ∀ d ∈ name, (!(isBlank d || d == '/' || d == '=' || d == '>')) = true := by
    intro d hd
    obtain ⟨h1, h2, h3, h4⟩ := isAttributeNameChar_spec (ha.name d (by simp [hname, hd]))
    simp [h1, h2, h3, h4]
  have hafter : after.dropWhile (fun d => !(isBlank d || d == '/' || d == '=' || d == '>')) =
      after := by
    cases hspace : a.afterName with
    | nil => simp [after, hspace]
    | cons d more =>
        have hd : isBlank d = true := ha.afterName.blank d (by simp [hspace])
        simp [after, hspace, hd]
  have hvalue : value? after = some (insideOf attributes space closed rest) :=
    value?_quoted ha.afterName ha.afterSign ha.value _
  have hcond : ((isBlank prev || prev == '/' || prev == '\'' || prev == '"') &&
      !(isBlank c || c == '/' || c == '>')) = true := by
    simp [hblank, hslash, hclose]
    simpa [mayPrecede] using hprev
  rw [hcore, attribute?, if_pos hcond, List.dropWhile_append_of_pos hinName, hafter]
  simp only [hvalue, Option.getD_some, skipSeparators_inside hattributes hspace]

theorem skipAttributes_stripped (hattributes : ∀ a ∈ attributes, a.WellFormed)
    (hspace : IsSpace space) (rest : List Char) {fuel : Nat} (hfuel : attributes.length ≤ fuel)
    {prev : Char} (hprev : attributes ≠ [] → mayPrecede prev = true) :
    skipAttributes fuel prev (strippedOf attributes space closed rest) =
      closeOf closed ++ rest := by
  induction attributes generalizing fuel prev with
  | nil =>
      have hnone : attribute? prev (closeOf closed ++ rest) = none := by
        cases closed <;> simp [closeOf, attribute?]
      cases fuel with
      | zero => rfl
      | succ fuel => simp only [strippedOf, skipAttributes, hnone]
  | cons a others ih =>
      obtain ⟨fuel, rfl⟩ : ∃ n, fuel = n + 1 := ⟨fuel - 1, by simp at hfuel; omega⟩
      have ha := hattributes a (List.mem_cons_self ..)
      have hothers : ∀ b ∈ others, b.WellFormed := fun b hb =>
        hattributes b (List.mem_cons_of_mem _ hb)
      have hattribute : attribute? prev (a.core ++ insideOf others space closed rest) =
          some (strippedOf others space closed rest) :=
        attribute?_core ha hothers hspace (hprev (List.cons_ne_nil _ _)) rest
      have hsplit : a.core ++ insideOf others space closed rest =
          (a.core ++ gapOf others space) ++ strippedOf others space closed rest := by
        rw [insideOf_eq, List.append_assoc]
      rw [strippedOf, skipAttributes, hattribute]
      simp only [hsplit, consumed_append]
      refine ih hothers (by simpa using hfuel) fun _ => ?_
      -- what stands last before the next attribute is white space, or the closing quotation mark
      cases hgap : (gapOf others space).getLast? with
      | none =>
          rw [List.getLast?_eq_none_iff] at hgap
          obtain ⟨front, hfront⟩ := a.core_last
          simp [hgap, hfront, mayPrecede, List.getLastD_eq_getLast?]
      | some c =>
          have hc := (isSpace_gapOf hothers hspace).blank c (List.mem_of_getLast? hgap)
          simp [List.getLastD_eq_getLast?, List.getLast?_append, hgap, mayPrecede, hc]

end

/-! ## Start tags -/

/-- A start tag, or a self-closing one, as it is written. -/
structure Tag where
  name : List Char
  attributes : List Attribute
  space : List Char
  closed : Bool
  deriving Repr, DecidableEq

namespace Tag

structure WellFormed (t : Tag) : Prop where
  name : IsTagName t.name
  attributes : ∀ a ∈ t.attributes, a.WellFormed
  space : IsSpace t.space

/-- The text of a tag after the opening bracket. -/
def body (t : Tag) : List Char :=
  t.name ++ insideOf t.attributes t.space t.closed []

/-- The text of a tag. -/
def text (t : Tag) : List Char :=
  '<' :: t.body

/-- The name of a tag's element. -/
def element (t : Tag) : String :=
  String.ofList (lower t.name)

/-- The token of a tag. -/
def token (t : Tag) : Token :=
  if t.closed then .emptyTag t.element t.text else .startTag t.element t.text

/-- Where the reader is after a tag. -/
def context (t : Tag) : Context :=
  if t.closed || !rawTextElements.contains t.element then .markup else .rawText t.element

theorem body_append (t : Tag) (rest : List Char) :
    t.body ++ rest = t.name ++ insideOf t.attributes t.space t.closed rest := by
  simp [body, insideOf]

variable {t : Tag}

theorem WellFormed.head_inside (h : t.WellFormed) (rest : List Char) :
    ∀ c ∈ (insideOf t.attributes t.space t.closed rest).head?, isTagNameChar c = false := by
  have hspace := isSpace_gapOf h.attributes h.space
  have hblank : ∀ c, isLayoutBlank c = true → isTagNameChar c = false := by
    intro c hc
    simp only [isLayoutBlank, Bool.or_eq_true, beq_iff_eq] at hc
    rcases hc with (((rfl | rfl) | rfl) | rfl) | rfl <;> decide
  rw [insideOf_eq]
  cases hgap : gapOf t.attributes t.space with
  | cons d more =>
      intro c hc
      obtain rfl : d = c := by simpa using hc
      exact hblank d (hspace d (by simp [hgap]))
  | nil =>
      cases hattributes : t.attributes with
      | nil => cases t.closed <;> simp [strippedOf, closeOf, isTagNameChar]
      | cons a others =>
          rw [hattributes] at hgap
          exact absurd hgap (h.attributes a (by simp [hattributes])).before.1

theorem length_le_stripped (attributes : List Attribute) (space : List Char) (closed : Bool)
    (rest : List Char) :
    attributes.length ≤ (strippedOf attributes space closed rest).length := by
  induction attributes with
  | nil => simp
  | cons a others ih =>
      obtain ⟨front, hfront⟩ := a.core_last
      rw [strippedOf, insideOf_eq, hfront]
      simp only [List.length_append, List.length_cons, List.length_nil]
      omega

/-- The reader goes through the inside of a tag to its end mark. -/
theorem WellFormed.skipAttributes_stripped (h : t.WellFormed) (rest : List Char) :
    skipAttributes (strippedOf t.attributes t.space t.closed rest).length
        ((t.name ++ gapOf t.attributes t.space).getLastD ' ')
        (strippedOf t.attributes t.space t.closed rest) = closeOf t.closed ++ rest := by
  refine Markup.skipAttributes_stripped h.attributes h.space rest
    (length_le_stripped ..) fun hne => ?_
  obtain ⟨a, others, hattributes⟩ := List.exists_cons_of_ne_nil hne
  have hbefore := (h.attributes a (by simp [hattributes])).before
  have hlast := List.getLast?_eq_some_getLast hbefore.1
  have hblank := IsSpace.blank hbefore.2 _ (List.getLast_mem hbefore.1)
  rw [hattributes, gapOf, List.getLastD_eq_getLast?, List.getLast?_append, hlast]
  simp [mayPrecede, hblank]

theorem WellFormed.tagEnd_body (h : t.WellFormed) (rest : List Char) :
    tagEnd (t.body ++ rest) = .found rest := by
  have hname := (takeWhile_tagName h.name (h.head_inside rest)).2
  have hskip : ∀ c : Char, isBlank c = true → (isBlank c || c == '/') = true := by simp_all
  have hgap : ∀ c ∈ gapOf t.attributes t.space, (isBlank c || c == '/') = true := fun c hc =>
    hskip c ((isSpace_gapOf h.attributes h.space).blank c hc)
  rw [body_append, tagEnd, hname]
  by_cases hattributes : t.attributes = []
  · -- a slash in front of the end is skipped with the white space
    have hbody : (insideOf t.attributes t.space t.closed rest).dropWhile
        (fun c => isBlank c || c == '/') = '>' :: rest := by
      rw [insideOf_eq, List.dropWhile_append_of_pos hgap, hattributes, strippedOf]
      cases t.closed <;> simp [closeOf, isBlank]
    have hnone : ∀ fuel prev, skipAttributes fuel prev ('>' :: rest) = '>' :: rest := by
      intro fuel prev
      cases fuel <;> simp [skipAttributes, attribute?]
    simp only [hbody, hnone]
    simp [isBlank]
  · obtain ⟨a, others, hcons⟩ := List.exists_cons_of_ne_nil hattributes
    have hbody : (insideOf t.attributes t.space t.closed rest).dropWhile
        (fun c => isBlank c || c == '/') = strippedOf t.attributes t.space t.closed rest := by
      obtain ⟨c, tail, hcore, hc⟩ := (h.attributes a (by simp [hcons])).core_head
      obtain ⟨hblank, hslash, -, -⟩ := isAttributeNameChar_spec hc
      rw [insideOf_eq, List.dropWhile_append_of_pos hgap, hcons, strippedOf, hcore,
        List.cons_append, List.dropWhile_cons_of_neg (by simp [hblank, hslash])]
    have hconsumed : consumed (t.name ++ insideOf t.attributes t.space t.closed rest)
        (strippedOf t.attributes t.space t.closed rest) =
          t.name ++ gapOf t.attributes t.space := by
      rw [insideOf_eq, ← List.append_assoc, consumed_append]
    simp only [hbody, hconsumed, h.skipAttributes_stripped rest]
    cases t.closed <;> simp [closeOf, isBlank]

theorem WellFormed.tagTail_body (h : t.WellFormed) (rest : List Char) :
    tagTail (t.body ++ rest) rest = closeOf t.closed := by
  have hname := (takeWhile_tagName h.name (h.head_inside rest)).2
  have hconsumed : consumed (t.name ++ insideOf t.attributes t.space t.closed rest)
      (strippedOf t.attributes t.space t.closed rest) =
        t.name ++ gapOf t.attributes t.space := by
    rw [insideOf_eq, ← List.append_assoc, consumed_append]
  rw [body_append, tagTail, hname, skipSeparators_inside h.attributes h.space]
  simp only [hconsumed, h.skipAttributes_stripped rest, consumed_append]
  cases t.closed <;> decide

/-- A complete tag is read to its end and no further. -/
theorem WellFormed.readStartTag_body (h : t.WellFormed) (rest : List Char) :
    readStartTag .markup (t.body ++ rest) = .read [t.token] t.context rest := by
  have hname : (t.body ++ rest).takeWhile isTagNameChar = t.name := by
    rw [body_append]
    exact (takeWhile_tagName h.name (h.head_inside rest)).1
  simp only [readStartTag, h.tagEnd_body rest, hname, h.tagTail_body rest, consumed_append]
  cases hclosed : t.closed
  · simp only [closeOf, token, context, hclosed]
    cases hraw : rawTextElements.contains t.element <;>
      simp_all [element, text]
  · simp [closeOf, token, context, hclosed, element, text]

theorem WellFormed.readMarkup_body (h : t.WellFormed) (rest : List Char) :
    readMarkup .markup (t.body ++ rest) = .ok (some (.read [t.token] t.context rest)) := by
  have hread := h.readStartTag_body rest
  obtain ⟨c, name, hname, hc⟩ := h.name.letter
  obtain ⟨hslash, hbang, hquery⟩ := isLetter_ne hc
  have hcons : t.body ++ rest =
      c :: (name ++ insideOf t.attributes t.space t.closed rest) := by
    rw [body_append, hname, List.cons_append]
  rw [hcons] at hread ⊢
  unfold readMarkup
  split
  · simp_all
  · simp_all
  · simp_all
  · simp_all
  · rename_i heq
    obtain ⟨rfl, rfl⟩ := List.cons.inj heq
    rw [if_pos hc, hread]

/-- A tag after which the reader stays in markup. -/
theorem WellFormed.readsAs (h : t.WellFormed) (hcontext : t.context = .markup) :
    ReadsAs t.text [t.token] :=
  readsAs_of_readMarkup fun rest => by rw [h.readMarkup_body rest, hcontext]

end Tag

end Folio.Markup
