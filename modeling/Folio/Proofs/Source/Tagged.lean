import Folio.Proofs.Source.Pairing
import Folio.Proofs.Source.Statements

/-!
# Definitions as they are written

A macro or a block is written between an opening and a closing tag, and what stands within holds
no mark `{%` (`FlatDefinition`).  The patterns for openings and closings match at marks only, so
each of them reads a tag or passes over it as a whole (`occurrencesFrom_tag`), and text without a
mark is passed over (`quiet_unmarked`).

From this follows what a pattern finds in one definition (`occurrencesFrom_openingPattern`,
`occurrencesFrom_closingPattern`): the opening and the closing, and nothing between them.
-/

namespace Folio.Source

open Text

variable {s t : List Char} {α : Type}

/-! ## Characters -/

/-- White space is in no word. -/
theorem isWord_eq_false_of_isBlank {c : Char} (hc : isBlank c = true) : isWord c = false := by
  have hcodes : ∀ n ∈ [9, 10, 11, 12, 13, 28, 29, 30, 31, 32, 0x85, 0xA0, 0x1680, 0x2000, 0x2001,
      0x2002, 0x2003, 0x2004, 0x2005, 0x2006, 0x2007, 0x2008, 0x2009, 0x200A, 0x2028, 0x2029,
      0x202F, 0x205F, 0x3000], isWord (Char.ofNat n) = false := by decide +kernel
  rw [← Char.ofNat_toNat c]
  refine hcodes _ ?_
  simp only [isBlank, Bool.or_eq_true, Bool.and_eq_true, decide_eq_true_eq, beq_iff_eq] at hc
  simp only [List.mem_cons, List.not_mem_nil, or_false]
  omega

theorem toNat_lt_of_isAlphanum {c : Char} (h : c.isAlphanum = true) : c.toNat < 128 := by
  have hbelow : ∀ last : Char, last.toNat < 128 → c.val ≤ last.val → c.toNat < 128 :=
    fun last hlast hle => Nat.lt_of_le_of_lt (UInt32.le_iff_toNat_le.mp hle) hlast
  rcases Bool.or_eq_true_iff.mp h with halpha | hdigit
  · rcases Bool.or_eq_true_iff.mp halpha with hupper | hlower
    · have hcapital : c.val ≥ 'A'.val ∧ c.val ≤ 'Z'.val := of_decide_eq_true hupper
      exact hbelow 'Z' (by decide) hcapital.2
    · exact hbelow 'z' (by decide) (of_decide_eq_true (Bool.and_eq_true_iff.mp hlower).2)
  · exact hbelow '9' (by decide) (of_decide_eq_true (Bool.and_eq_true_iff.mp hdigit).2)

theorem isWord_of_isAlphanum {c : Char} (h : c.isAlphanum = true) : isWord c = true := by
  rw [isWord, isAlphanumeric, if_pos (toNat_lt_of_isAlphanum h), h, Bool.or_true]

/-- A letter or digit of ASCII, or the underscore. -/
def isNameChar (c : Char) : Bool :=
  c.isAlphanum || c == '_'

theorem isWord_of_isNameChar {c : Char} (h : isNameChar c = true) : isWord c = true := by
  rcases Bool.or_eq_true_iff.1 h with h | h
  · exact isWord_of_isAlphanum h
  · rw [isWord, h, Bool.true_or]

theorem isBlank_eq_false_of_isNameChar {c : Char} (h : isNameChar c = true) :
    isBlank c = false := by
  by_contra hblank
  have hword := isWord_eq_false_of_isBlank (by simpa using hblank)
  rw [isWord_of_isNameChar h] at hword
  cases hword

/-! ## Text without marks -/

/-- Text in which no tag begins. -/
def Unmarked (s : List Char) : Prop :=
  ¬ ['{', '%'] <:+: s

instance : Decidable (Unmarked s) :=
  inferInstanceAs (Decidable (¬ ['{', '%'] <:+: s))

/-- Unmarked text is passed over, unless a mark begins with its last character. -/
theorem quiet_unmarked (hs : Unmarked s) (hend : s.getLast? = some '{' → t.head? ≠ some '%') :
    Quiet (dropWord ['{', '%']) s t := by
  intro c v hv
  by_cases hc : c = '{'
  · subst hc
    cases v with
    | nil =>
        obtain ⟨front, rfl⟩ := hv
        have ht := hend (by rw [List.getLast?_concat])
        cases t with
        | nil => rfl
        | cons d t =>
            have hd : '%' ≠ d := fun hd => ht (hd ▸ rfl)
            exact (if_pos rfl).trans (dropWord_cons_ne hd [] t)
    | cons d v =>
        have hd : '%' ≠ d := by
          rintro rfl
          exact hs (List.IsInfix.trans ⟨[], v, rfl⟩ hv.isInfix)
        exact (if_pos rfl).trans (dropWord_cons_ne hd [] (v ++ t))
  · exact dropWord_cons_ne (Ne.symm hc) _ _

/-- Text without braces is passed over. -/
theorem quiet_of_brace_not_mem (hs : '{' ∉ s) (t : List Char) :
    Quiet (dropWord ['{', '%']) s t :=
  quiet_unmarked (fun hmark => hs (hmark.subset List.mem_cons_self))
    fun hlast => absurd (List.mem_of_getLast? hlast) hs

/-- What a pattern can match begins with a mark. -/
def BeginsAtMark (pattern : Pattern α) : Prop :=
  ∀ s, dropWord ['{', '%'] s = none → pattern s = none

theorem BeginsAtMark.quiet {pattern : Pattern α} (h : BeginsAtMark pattern)
    (hquiet : Quiet (dropWord ['{', '%']) s t) : Quiet pattern s t :=
  fun c v hv => h _ (hquiet c v hv)

theorem statementStart_eq_none (h : dropWord ['{', '%'] s = none) : statementStart s = none := by
  rw [statementStart, h]
  rfl

theorem beginsAtMark_openingPattern (kind : DefinitionKind) :
    BeginsAtMark (openingPattern kind) := by
  intro s h
  cases kind with
  | namedBlock =>
      rw [openingPattern, blockPattern, statementStart_eq_none h]
      rfl
  | namedMacro =>
      rw [openingPattern, macroPattern, statementStart_eq_none h]
      rfl

theorem beginsAtMark_closingPattern (kind : DefinitionKind) :
    BeginsAtMark (closingPattern kind) := by
  intro s h
  rw [closingPattern, statementStart_eq_none h]
  rfl

/-! ## Tags -/

/-- What stands at the two ends of a tag: white space, and a sign or none. -/
structure TagEnds where
  sign : List Char
  gap : List Char
  lastGap : List Char
  lastSign : List Char
  sign_mem : sign ∈ [[], ['-'], ['+']] := by decide
  white_gap : gap.all isBlank = true := by decide
  white_lastGap : lastGap.all isBlank = true := by decide
  lastSign_mem : lastSign ∈ [[], ['-'], ['+']] := by decide

namespace TagEnds

variable (e : TagEnds)

/-- What follows the content of a tag. -/
def tail : List Char :=
  e.lastGap ++ (e.lastSign ++ ['%', '}'])

/-- What follows the mark of a tag with a content. -/
def inner (content : List Char) : List Char :=
  e.sign ++ (e.gap ++ (content ++ e.tail))

/-- A tag with a content. -/
def around (content : List Char) : List Char :=
  ['{', '%'] ++ e.inner content

theorem brace_not_mem_blank (hs : s.all isBlank = true) : '{' ∉ s := fun hmem =>
  absurd (List.all_eq_true.1 hs _ hmem) (by decide)

theorem brace_not_mem_sign (hs : s ∈ [[], ['-'], ['+']]) : '{' ∉ s := by
  rcases List.mem_cons.1 hs with rfl | hs
  · decide
  · rcases List.mem_cons.1 hs with rfl | hs
    · decide
    · rw [List.mem_singleton.1 hs]
      decide

theorem brace_not_mem_tail : '{' ∉ e.tail := by
  rw [tail, List.mem_append, List.mem_append, not_or, not_or]
  exact ⟨brace_not_mem_blank e.white_lastGap, brace_not_mem_sign e.lastSign_mem, by decide⟩

/-- A content that is passed over makes a tag that holds no mark but the first. -/
theorem quiet_inner {content : List Char} (t : List Char)
    (hcontent : Quiet (dropWord ['{', '%']) content (e.tail ++ t)) :
    Quiet (dropWord ['{', '%']) ('%' :: e.inner content) t := by
  have htail := quiet_of_brace_not_mem e.brace_not_mem_tail t
  have hgap := quiet_of_brace_not_mem (brace_not_mem_blank e.white_gap) (content ++ e.tail ++ t)
  have hsign := quiet_of_brace_not_mem (brace_not_mem_sign e.sign_mem)
    (e.gap ++ (content ++ e.tail) ++ t)
  refine quiet_cons.2 ⟨dropWord_cons_ne (by decide) _ _, ?_⟩
  exact Quiet.append hsign (Quiet.append hgap (Quiet.append hcontent htail))

/-- A word ends where the content of a tag does. -/
theorem exists_tail_cons (t : List Char) :
    ∃ c rest, e.tail ++ t = c :: rest ∧ isWord c = false := by
  cases hgap : e.lastGap with
  | cons c gap =>
      refine ⟨c, gap ++ (e.lastSign ++ ['%', '}']) ++ t, by simp [tail, hgap], ?_⟩
      exact isWord_eq_false_of_isBlank (List.all_eq_true.1 e.white_lastGap c (by simp [hgap]))
  | nil =>
      rcases List.mem_cons.1 e.lastSign_mem with hsign | hsign
      · exact ⟨'%', '}' :: t, by simp [tail, hgap, hsign], by decide⟩
      · rcases List.mem_cons.1 hsign with hsign | hsign
        · exact ⟨'-', '%' :: '}' :: t, by simp [tail, hgap, hsign], by decide⟩
        · rw [List.mem_singleton] at hsign
          exact ⟨'+', '%' :: '}' :: t, by simp [tail, hgap, hsign], by decide⟩

theorem statementStart_around {c : Char} (hc : isBlank c = false ∧ c ≠ '-' ∧ c ≠ '+')
    (content t : List Char) :
    statementStart (e.around (c :: content) ++ t) = some (c :: (content ++ (e.tail ++ t))) := by
  have hsign : e.sign = [] ∨ e.sign = ['-'] ∨ e.sign = ['+'] := by simpa using e.sign_mem
  have htext : e.around (c :: content) ++ t =
      ['{', '%'] ++ (e.sign ++ (e.gap ++ c :: (content ++ (e.tail ++ t)))) := by
    simp [around, inner]
  rw [htext]
  exact statementStart_append hsign (List.all_eq_true.1 e.white_gap) hc _

end TagEnds

/-- What a pattern reads of a tag, if anything, whatever follows the tag. -/
def ReadsTag (pattern : Pattern α) (tag : List Char) (value? : Option α) : Prop :=
  ∀ t, ∃ back, back <:+ tag.tail ∧
    pattern (tag ++ t) = value?.map fun value => (value, back ++ t)

theorem readsTag_none {pattern : Pattern α} {tag : List Char}
    (h : ∀ t, pattern (tag ++ t) = none) : ReadsTag pattern tag none :=
  fun t => ⟨[], List.nil_suffix, h t⟩

/-- A pattern reads a tag or passes over it; in either case the search goes on behind it. -/
theorem occurrencesFrom_tag {pattern : Pattern α} (hpattern : BeginsAtMark pattern)
    {tag : List Char} {value? : Option α} (hne : tag ≠ []) (hread : ReadsTag pattern tag value?)
    (hquiet : Quiet (dropWord ['{', '%']) tag.tail t) (offset : Nat) :
    occurrencesFrom pattern offset 0 (tag ++ t) =
      value?.toList.map (fun value => ⟨offset, value⟩) ++
        occurrencesFrom pattern (offset + tag.length) 0 t := by
  obtain ⟨c, inner, rfl⟩ := List.exists_cons_of_ne_nil hne
  obtain ⟨back, ⟨front, hfront⟩, hread⟩ := hread t
  rw [List.tail_cons] at hfront hquiet
  have hquiet := hpattern.quiet hquiet
  cases value? with
  | none =>
      rw [occurrencesFrom_append (quiet_cons.2 ⟨hread, hquiet⟩)]
      rfl
  | some value =>
      have hback : Quiet pattern back t := fun d v hv => hquiet d v (hv.trans ⟨front, hfront⟩)
      have htext : c :: inner = (c :: front) ++ back := by rw [← hfront]; rfl
      rw [htext, List.append_assoc] at hread ⊢
      rw [occurrencesFrom_match (List.cons_ne_nil _ _) hread, occurrencesFrom_append hback,
        List.length_append, Nat.add_assoc]
      rfl

/-! ## Definitions -/

/-- An identifier of ASCII letters, digits and underscores. -/
def isPlainName : List Char → Bool
  | c :: rest => (c.isAlpha || c == '_') && rest.all isNameChar
  | [] => false

/-- A macro or a block with no tag within; a block has no arguments. -/
structure FlatDefinition where
  kind : DefinitionKind
  name : List Char
  arguments : List Char
  body : List Char
  opening : TagEnds
  space : List Char
  closing : TagEnds
  isPlainName_name : isPlainName name = true := by decide
  unmarked_arguments : Unmarked arguments := by decide +kernel
  unmarked_body : Unmarked body := by decide +kernel
  space_ne_nil : space ≠ [] := by decide
  white_space : space.all isBlank = true := by decide

namespace FlatDefinition

variable (d : FlatDefinition)

/-- What follows the keyword in the opening tag. -/
def signature : List Char :=
  match d.kind with
  | .namedBlock => d.name
  | .namedMacro => d.name ++ '(' :: (d.arguments ++ [')'])

/-- The content of the opening tag. -/
def heading : List Char :=
  d.kind.keyword.toList ++ (d.space ++ d.signature)

/-- The tag that opens the definition. -/
def openingTag : List Char :=
  d.opening.around d.heading

/-- The tag that closes the definition. -/
def closingTag : List Char :=
  d.closing.around ("end" ++ d.kind.keyword).toList

/-- The definition as it is written. -/
def text : List Char :=
  d.openingTag ++ (d.body ++ d.closingTag)

/-! ### Names -/

theorem exists_name : ∃ c rest, d.name = c :: rest ∧ (c.isAlpha || c == '_') = true ∧
    ∀ e ∈ rest, isNameChar e = true := by
  have hname := d.isPlainName_name
  cases hd : d.name with
  | nil =>
      rw [hd] at hname
      cases hname
  | cons c rest =>
      rw [hd, isPlainName, Bool.and_eq_true] at hname
      exact ⟨c, rest, rfl, hname.1, List.all_eq_true.1 hname.2⟩

theorem isNameChar_of_mem_name {c : Char} (hc : c ∈ d.name) : isNameChar c = true := by
  obtain ⟨first, rest, hname, hfirst, hrest⟩ := d.exists_name
  rw [hname] at hc
  rcases List.mem_cons.1 hc with rfl | hc
  · rw [isNameChar, Char.isAlphanum, Bool.or_right_comm, hfirst, Bool.true_or]
  · exact hrest c hc

theorem brace_not_mem_name : '{' ∉ d.name := fun hmem =>
  absurd (d.isNameChar_of_mem_name hmem) (by decide)

/-- White space ends where a name begins. -/
theorem dropSomeBlanks_name (t : List Char) :
    dropSomeBlanks (d.space ++ (d.name ++ t)) = some (d.name ++ t) := by
  obtain ⟨c, rest, hname, -, -⟩ := d.exists_name
  have hc : isBlank c = false :=
    isBlank_eq_false_of_isNameChar (d.isNameChar_of_mem_name (by rw [hname]; exact List.mem_cons_self))
  rw [hname, List.cons_append]
  exact dropSomeBlanks_append d.space_ne_nil (List.all_eq_true.1 d.white_space) hc _

/-- A name is the whole word where it stands, if no word goes on behind it. -/
theorem cut_name {c : Char} (hc : isWord c = false) (t : List Char) :
    (d.name ++ c :: t).takeWhile isWord = d.name ∧
      (d.name ++ c :: t).dropWhile isWord = c :: t := by
  have hname : ∀ e ∈ d.name, isWord e = true := fun e he =>
    isWord_of_isNameChar (d.isNameChar_of_mem_name he)
  rw [List.takeWhile_append_of_pos hname, List.dropWhile_append_of_pos hname,
    List.takeWhile_cons_of_neg (by simp [hc]), List.dropWhile_cons_of_neg (by simp [hc]),
    List.append_nil]
  exact ⟨rfl, rfl⟩

/-! ### What tags hold -/

theorem tags_ne_nil : d.openingTag ≠ [] ∧ d.closingTag ≠ [] :=
  ⟨List.cons_ne_nil _ _, List.cons_ne_nil _ _⟩

theorem exists_keyword (kind : DefinitionKind) : ∃ c word, kind.keyword.toList = c :: word ∧
    isBlank c = false ∧ c ≠ '-' ∧ c ≠ '+' := by
  cases kind <;> exact ⟨_, _, rfl, by decide, by decide, by decide⟩

theorem brace_not_mem_keyword (kind : DefinitionKind) :
    '{' ∉ kind.keyword.toList ∧ '{' ∉ ("end" ++ kind.keyword).toList := by
  cases kind <;> decide

/-- No keyword begins another, nor do those of closing tags. -/
theorem dropWord_keyword_ne {kind other : DefinitionKind} (h : kind ≠ other) (t : List Char) :
    dropWord kind.keyword.toList (other.keyword.toList ++ t) = none ∧
      dropWord ("end" ++ kind.keyword).toList (("end" ++ other.keyword).toList ++ t) = none :=
  match kind, other, h with
  | .namedBlock, .namedMacro, _ => ⟨rfl, rfl⟩
  | .namedMacro, .namedBlock, _ => ⟨rfl, rfl⟩

/-- No mark but its first is in an opening tag. -/
theorem quiet_openingTag (t : List Char) :
    Quiet (dropWord ['{', '%']) d.openingTag.tail t := by
  have hname := fun t => quiet_of_brace_not_mem d.brace_not_mem_name t
  have hspace := quiet_of_brace_not_mem (TagEnds.brace_not_mem_blank d.white_space)
    (d.signature ++ (d.opening.tail ++ t))
  refine d.opening.quiet_inner t ?_
  refine Quiet.append (quiet_of_brace_not_mem (brace_not_mem_keyword d.kind).1 _)
    (Quiet.append hspace ?_)
  rw [signature]
  split
  · exact hname _
  · have harguments : Quiet (dropWord ['{', '%']) (d.arguments ++ [')']) (d.opening.tail ++ t) :=
      Quiet.append (quiet_unmarked d.unmarked_arguments fun _ h => absurd h (by simp))
        (quiet_of_brace_not_mem (by decide) _)
    exact Quiet.append (hname _)
      (quiet_cons.2 ⟨dropWord_cons_ne (by decide) _ _, harguments⟩)

/-- No mark but its first is in a closing tag. -/
theorem quiet_closingTag (t : List Char) :
    Quiet (dropWord ['{', '%']) d.closingTag.tail t :=
  d.closing.quiet_inner t (quiet_of_brace_not_mem (brace_not_mem_keyword d.kind).2 _)

theorem statementStart_openingTag (t : List Char) :
    statementStart (d.openingTag ++ t) =
      some (d.kind.keyword.toList ++ (d.space ++ (d.signature ++ (d.opening.tail ++ t)))) := by
  obtain ⟨c, word, hword, hc⟩ := exists_keyword d.kind
  rw [openingTag, heading, hword, List.cons_append, d.opening.statementStart_around hc]
  simp only [List.append_assoc, List.cons_append]

theorem statementStart_closingTag (t : List Char) :
    statementStart (d.closingTag ++ t) =
      some (("end" ++ d.kind.keyword).toList ++ (d.closing.tail ++ t)) := by
  have hword : ("end" ++ d.kind.keyword).toList = 'e' :: ("nd" ++ d.kind.keyword).toList := by
    cases d.kind <;> rfl
  rw [closingTag, hword, d.closing.statementStart_around (by decide)]
  rfl

/-! ### What patterns read -/

theorem blockPattern_name {c : Char} (hc : isWord c = false)
    (hstart : statementStart s = some ("block".toList ++ (d.space ++ (d.name ++ c :: t)))) :
    blockPattern s = some (d.name, c :: t) := by
  obtain ⟨first, rest, hname, -, -⟩ := d.exists_name
  have hne : d.name.isEmpty = false := by rw [hname]; rfl
  obtain ⟨htake, hdrop⟩ := d.cut_name hc t
  unfold blockPattern
  simp only [hstart, Option.bind_eq_bind, Option.bind_some, dropWord_append, d.dropSomeBlanks_name,
    htake, hdrop, hne]
  rfl

theorem macroPattern_name
    (hstart : statementStart s = some ("macro".toList ++ (d.space ++ (d.name ++ '(' :: t)))) :
    macroPattern s = some (d.name, t) := by
  obtain ⟨first, rest, hname, hfirst, -⟩ := d.exists_name
  obtain ⟨htake, hdrop⟩ := d.cut_name (c := '(') (by decide) t
  have hword : isWord first = true :=
    isWord_of_isNameChar (d.isNameChar_of_mem_name (by simp [hname]))
  rw [hname, List.cons_append, List.takeWhile_cons_of_pos hword] at htake
  rw [hname, List.cons_append, List.dropWhile_cons_of_pos hword] at hdrop
  have hopen : dropWord ['('] (dropBlanks ('(' :: t)) = some t := rfl
  unfold macroPattern
  simp only [hstart, Option.bind_eq_bind, Option.bind_some, dropWord_append, d.dropSomeBlanks_name]
  rw [hname, List.cons_append]
  simp only [hfirst, hdrop, hopen, Option.bind_some, htake]
  rfl

/-- A tag that opens a definition of one kind is read by the pattern for this kind alone. -/
theorem readsTag_openingTag (kind : DefinitionKind) :
    ReadsTag (openingPattern kind) d.openingTag (if kind = d.kind then some d.name else none) := by
  by_cases hkind : kind = d.kind
  · subst hkind
    rw [if_pos rfl]
    intro t
    have hstart := d.statementStart_openingTag t
    cases hkind : d.kind with
    | namedBlock =>
        have hsignature : d.signature = d.name := by rw [signature, hkind]
        obtain ⟨c, rest, htail, hc⟩ := d.opening.exists_tail_cons t
        refine ⟨d.opening.tail, ⟨'%' :: (d.opening.sign ++ (d.opening.gap ++ d.heading)), ?_⟩, ?_⟩
        · simp [openingTag, TagEnds.around, TagEnds.inner]
        · rw [hkind, hsignature, htail] at hstart
          rw [htail]
          exact d.blockPattern_name hc hstart
    | namedMacro =>
        have hsignature : d.signature = d.name ++ '(' :: (d.arguments ++ [')']) := by
          rw [signature, hkind]
        refine ⟨d.arguments ++ [')'] ++ d.opening.tail,
          ⟨'%' :: (d.opening.sign ++ (d.opening.gap ++ (d.kind.keyword.toList ++
            (d.space ++ (d.name ++ ['(']))))), ?_⟩, ?_⟩
        · simp [openingTag, TagEnds.around, TagEnds.inner, heading, hsignature]
        · rw [hkind, hsignature, List.append_assoc, List.cons_append, ← List.append_assoc _ _ t]
            at hstart
          exact d.macroPattern_name hstart
  · rw [if_neg hkind]
    refine readsTag_none fun t => ?_
    have hstart := d.statementStart_openingTag t
    have hword := fun t => (dropWord_keyword_ne hkind t).1
    cases kind with
    | namedBlock =>
        have hnone : ∀ t, dropWord "block".toList (d.kind.keyword.toList ++ t) = none := hword
        rw [openingPattern, blockPattern, hstart, Option.bind_eq_bind, Option.bind_some, hnone]
        rfl
    | namedMacro =>
        have hnone : ∀ t, dropWord "macro".toList (d.kind.keyword.toList ++ t) = none := hword
        rw [openingPattern, macroPattern, hstart, Option.bind_eq_bind, Option.bind_some, hnone]
        rfl

/-- The patterns for openings pass over closing tags. -/
theorem openingPattern_closingTag (kind : DefinitionKind) (t : List Char) :
    openingPattern kind (d.closingTag ++ t) = none := by
  have hstart := d.statementStart_closingTag t
  cases kind with
  | namedBlock =>
      rw [openingPattern, blockPattern, hstart]
      cases d.kind <;> rfl
  | namedMacro =>
      rw [openingPattern, macroPattern, hstart]
      cases d.kind <;> rfl

theorem closingPattern_openingTag (kind : DefinitionKind) (t : List Char) :
    closingPattern kind (d.openingTag ++ t) = none := by
  rw [closingPattern, d.statementStart_openingTag t]
  cases kind <;> cases d.kind <;> rfl

/-- A tag that closes a definition of one kind is read by the pattern for this kind alone. -/
theorem readsTag_closingTag (kind : DefinitionKind) :
    ReadsTag (closingPattern kind) d.closingTag (if kind = d.kind then some () else none) := by
  intro t
  obtain ⟨stop, after, hafter, hstop⟩ := d.closing.exists_tail_cons t
  have hends : wordEnds (d.closing.tail ++ t) = true := by
    rw [hafter, wordEnds, hstop]
    rfl
  refine ⟨d.closing.tail, ⟨'%' :: (d.closing.sign ++ (d.closing.gap ++
    ("end" ++ d.kind.keyword).toList)), by simp [closingTag, TagEnds.around, TagEnds.inner]⟩, ?_⟩
  rw [closingPattern, d.statementStart_closingTag t]
  by_cases hkind : kind = d.kind
  · rw [if_pos hkind, hkind, Option.bind_eq_bind, Option.bind_some, dropWord_append]
    simp [hends]
  · rw [if_neg hkind, Option.bind_eq_bind, Option.bind_some, (dropWord_keyword_ne hkind _).2]
    rfl

/-! ### What is found -/

/-- How far the closing tag is from the beginning. -/
def closingPlace : Nat :=
  d.openingTag.length + d.body.length

theorem closingPlace_lt : d.closingPlace < d.text.length := by
  have htag : 0 < d.closingTag.length := Nat.succ_pos _
  rw [text, List.length_append, List.length_append, closingPlace]
  omega

theorem quiet_body (t : List Char) :
    Quiet (dropWord ['{', '%']) d.body (d.closingTag ++ t) :=
  quiet_unmarked d.unmarked_body fun _ h => absurd h (by simp [closingTag, TagEnds.around])

/-- A search goes through a definition tag by tag. -/
theorem occurrencesFrom_text {pattern : Pattern α} (hpattern : BeginsAtMark pattern)
    {opened? closed? : Option α} (hopening : ReadsTag pattern d.openingTag opened?)
    (hclosing : ReadsTag pattern d.closingTag closed?) (offset : Nat) (t : List Char) :
    occurrencesFrom pattern offset 0 (d.text ++ t) =
      opened?.toList.map (fun value => ⟨offset, value⟩) ++
        (closed?.toList.map (fun value => ⟨offset + d.closingPlace, value⟩) ++
          occurrencesFrom pattern (offset + d.text.length) 0 t) := by
  rw [text, List.append_assoc, List.append_assoc,
    occurrencesFrom_tag hpattern d.tags_ne_nil.1 hopening (d.quiet_openingTag _),
    occurrencesFrom_append (hpattern.quiet (d.quiet_body t)),
    occurrencesFrom_tag hpattern d.tags_ne_nil.2 hclosing (d.quiet_closingTag t),
    List.length_append, List.length_append, closingPlace, Nat.add_assoc, Nat.add_assoc,
    Nat.add_assoc]

/-- Of a definition, its opening is found by the search for openings of its kind. -/
theorem occurrencesFrom_openingPattern (kind : DefinitionKind) (offset : Nat) (t : List Char) :
    occurrencesFrom (openingPattern kind) offset 0 (d.text ++ t) =
      (if kind = d.kind then [⟨offset, d.name⟩] else []) ++
        occurrencesFrom (openingPattern kind) (offset + d.text.length) 0 t := by
  rw [d.occurrencesFrom_text (beginsAtMark_openingPattern kind) (d.readsTag_openingTag kind)
    (readsTag_none (d.openingPattern_closingTag kind))]
  split <;> rfl

/-- Of a definition, its closing is found by the search for closings of its kind. -/
theorem occurrencesFrom_closingPattern (kind : DefinitionKind) (offset : Nat) (t : List Char) :
    occurrencesFrom (closingPattern kind) offset 0 (d.text ++ t) =
      (if kind = d.kind then [⟨offset + d.closingPlace, ()⟩] else []) ++
        occurrencesFrom (closingPattern kind) (offset + d.text.length) 0 t := by
  rw [d.occurrencesFrom_text (beginsAtMark_closingPattern kind)
    (readsTag_none (d.closingPattern_openingTag kind)) (d.readsTag_closingTag kind)]
  split <;> rfl

end FlatDefinition

end Folio.Source
