import Folio.Proofs.Source.Block
import Folio.Proofs.Source.Statements
import Folio.Proofs.Text.Lines

/-!
# The lines of a block of relationships

A block of relationships is in the comment at the top of a text.  It is cut into lines at every
character that ends a line anywhere, and each of them is numbered with the line of the text on
which it begins, counted by line feeds (`of_mem_blockLinesOf`).

Since no line of the block has a line feed within, all that it holds is on that one line.  A
target is read from a line of the block, the line of its key or, in a list with dashes, one of
those below (`lineRefs_cases`), and has the number of this line.  The items of a key end where
the next key stands, so the targets come in the order of their lines (`onLines_blockLineRefs`).
-/

namespace Folio.Source

open Text

variable {text s t : List Char}

/-! ## The comment at the top -/

/-- The comment at the top of a text, with its marks: white space alone stands before it, and it
goes up to the first closing mark. -/
structure IsTopComment (text before comment after : List Char) : Prop where
  text_eq : text = before ++ (comment ++ after)
  white : IsWhite before
  marks : ∃ body, comment = ['{', '#'] ++ (body ++ ['#', '}']) ∧ ¬ ['#', '}'] <:+: body

/-- A line, counted by line feeds, that the comment at the top has a character on. -/
def ReachesLine (text : List Char) (n : Nat) : Prop :=
  ∃ before comment after, IsTopComment text before comment after ∧
    ∃ place, before.length ≤ place ∧ place < before.length + comment.length ∧
      lineOf text place = n

theorem eq_append_of_splitAtWord {mark body rest : List Char}
    (h : splitAtWord mark s = some (body, rest)) :
    s = body ++ (mark ++ rest) ∧ Quiet (dropWord mark) body (mark ++ rest) := by
  induction s generalizing body with
  | nil =>
      obtain ⟨u, hword, heq⟩ := Option.map_eq_some_iff.mp h
      cases heq
      exact ⟨(eq_append_of_dropWord hword).trans (List.nil_append _).symm, quiet_nil _ _⟩
  | cons c s ih =>
      rw [splitAtWord] at h
      split at h
      · rename_i hword
        cases h
        exact ⟨(eq_append_of_dropWord hword).trans (List.nil_append _).symm, quiet_nil _ _⟩
      · rename_i hnone
        obtain ⟨⟨body, rest⟩, hrest, heq⟩ := Option.map_eq_some_iff.mp h
        cases heq
        obtain ⟨rfl, hquiet⟩ := ih hrest
        exact ⟨rfl, quiet_cons.2 ⟨hnone, hquiet⟩⟩

/-- A mark that is not found in a part of a text is not there. -/
theorem not_infix_of_quiet {mark : List Char} (hne : mark ≠ [])
    (h : Quiet (dropWord mark) s t) : ¬ mark <:+: s := by
  rintro ⟨front, back, rfl⟩
  obtain ⟨c, word, rfl⟩ := List.exists_cons_of_ne_nil hne
  have hnone := h c (word ++ back) ⟨front, by simp⟩
  rw [← List.cons_append, List.append_assoc, dropWord_append] at hnone
  cases hnone

theorem exists_hyphen (s : List Char) :
    ∃ sign : List Char, '#' ∉ sign ∧ s = sign ++ dropOne ['-'] s := by
  cases s with
  | nil => exact ⟨[], List.not_mem_nil, rfl⟩
  | cons c s =>
      rw [dropOne]
      split
      · rename_i hc
        have hc : c = '-' := by simpa using hc
        exact ⟨[c], by rw [hc]; decide, rfl⟩
      · exact ⟨[], List.not_mem_nil, rfl⟩

/-- What is read as the content of the comment at the top stands within it. -/
theorem exists_topComment {header : Located (List Char)} (h : headerComment text = some header) :
    ∃ before comment after, IsTopComment text before comment after ∧
      ∃ front back, text = front ++ (header.value ++ back) ∧ header.offset = front.length ∧
        before.length ≤ front.length ∧
        front.length + header.value.length < before.length + comment.length := by
  obtain ⟨inner, hopen, h⟩ := Option.bind_eq_some_iff.mp h
  obtain ⟨⟨body, after⟩, hsplit, h⟩ := Option.bind_eq_some_iff.mp h
  obtain rfl := Option.some.inj h
  obtain ⟨sign, hsign, hinner⟩ := exists_hyphen inner
  obtain ⟨hrest, hquiet⟩ := eq_append_of_splitAtWord hsplit
  have hbody := not_infix_of_quiet (by decide) hquiet
  have htext : text = text.takeWhile isBlank ++ (['{', '#'] ++ (sign ++ dropOne ['-'] inner)) := by
    rw [← hinner, ← eq_append_of_dropWord hopen, dropBlanks, List.takeWhile_append_dropWhile]
  have hwhite : IsWhite (text.takeWhile isBlank) := fun c hc => List.mem_takeWhile_imp hc
  generalize text.takeWhile isBlank = before at htext hwhite
  dsimp only
  rw [hrest] at htext ⊢
  -- the sign is no part of a closing mark, so the first one behind it is the first of all
  have hmarks : ¬ ['#', '}'] <:+: sign ++ body := by
    refine not_infix_of_quiet (by decide) (Quiet.append (fun c v hv => ?_) hquiet)
    refine dropWord_cons_ne (fun hc => ?_) _ _
    exact hsign (hv.subset (hc ▸ List.mem_cons_self))
  have hcontent : (if body.getLast? = some '-' then body.dropLast else body) <+: body := by
    split
    · exact List.dropLast_prefix body
    · exact List.prefix_rfl
  generalize (if body.getLast? = some '-' then body.dropLast else body) = content at hcontent ⊢
  obtain ⟨hyphen, rfl⟩ := hcontent
  refine ⟨before, ['{', '#'] ++ (sign ++ (content ++ hyphen) ++ ['#', '}']), after,
    ⟨by rw [htext]; simp, hwhite, sign ++ (content ++ hyphen), rfl, hmarks⟩,
    before ++ (['{', '#'] ++ sign), hyphen ++ (['#', '}'] ++ after), ?_, ?_, ?_, ?_⟩
  · rw [htext]
    simp only [List.append_assoc]
  · rw [htext]
    simp only [List.length_append]
    omega
  · rw [List.length_append]
    exact Nat.le_add_right _ _
  · simp only [List.length_append, List.length_cons, List.length_nil]
    omega

/-! ## Lines of the block -/

/-- The lines of the block of a text, numbered. -/
def blockLinesOf (text : List Char) : List BlockLine :=
  match headerComment text with
  | none => []
  | some header =>
      match firstMatch blockMarkPattern header.value with
      | none => []
      | some mark =>
          numberLines text (header.offset + mark.offset)
            (linesWithEnds (header.value.drop mark.offset))

theorem blockRefs_eq (text : List Char) : blockRefs text = blockLineRefs (blockLinesOf text) := by
  unfold blockRefs blockLinesOf
  cases headerComment text with
  | none => rfl
  | some header =>
      dsimp only
      cases firstMatch blockMarkPattern header.value <;> rfl

/-- A line has its content on the counted line of its number, and begins between two places. -/
structure BlockLine.StandsIn (l : BlockLine) (text : List Char) (start stop : Nat) : Prop where
  on_line : ∃ line, (splitAt '\n' text)[l.line - 1]? = some line ∧ l.content <:+: line
  place : ∃ place, start ≤ place ∧ place ≤ stop ∧ lineOf text place = l.line

/-- Lines that stand in a text one after the other are numbered as they are counted there. -/
theorem of_mem_numberLines {front back : List Char} {raws : List (List Char)}
    (htext : text = front ++ (raws.flatten ++ back))
    (hraws : ∀ raw ∈ raws, '\n' ∉ trimRight (fun c => c == '\r' || c == '\n') raw) :
    (∀ l ∈ numberLines text front.length raws,
      l.StandsIn text front.length (front.length + raws.flatten.length)) ∧
      (numberLines text front.length raws).Pairwise fun a b => a.line ≤ b.line := by
  induction raws generalizing front with
  | nil => exact ⟨fun l hl => absurd hl List.not_mem_nil, List.Pairwise.nil⟩
  | cons raw raws ih =>
      obtain ⟨hraw, hothers⟩ := List.forall_mem_cons.mp hraws
      have hnext : text = (front ++ raw) ++ (raws.flatten ++ back) := by
        rw [htext, List.flatten_cons]
        simp only [List.append_assoc]
      obtain ⟨hstand, hpairs⟩ := ih hnext hothers
      rw [List.length_append] at hstand hpairs
      rw [List.flatten_cons, List.length_append, numberLines]
      refine ⟨List.forall_mem_cons.mpr ⟨⟨?_, ?_⟩, fun l hl => ?_⟩,
        List.pairwise_cons.mpr ⟨fun l hl => ?_, hpairs⟩⟩
      · obtain ⟨rest, hrest⟩ := prefix_trimRight (fun c => c == '\r' || c == '\n') raw
        have hsplit : text = front ++ (trimRight (fun c => c == '\r' || c == '\n') raw ++
            (rest ++ (raws.flatten ++ back))) := by
          rw [hnext, ← List.append_assoc _ rest, hrest, List.append_assoc]
        obtain ⟨line, hline, hinfix⟩ :=
          exists_line_of_append front hraw (rest ++ (raws.flatten ++ back))
        refine ⟨line, ?_, hinfix⟩
        rw [← hsplit] at hline
        rw [hsplit, lineOf_append, Nat.add_sub_cancel, ← hsplit]
        exact hline
      · exact ⟨front.length, Nat.le_refl _, Nat.le_add_right _ _, rfl⟩
      · obtain ⟨place, hstart, hstop, hline⟩ := (hstand l hl).place
        exact ⟨(hstand l hl).on_line, place, by omega, by omega, hline⟩
      · obtain ⟨place, hstart, -, hline⟩ := (hstand l hl).place
        rw [← hline]
        exact lineOf_mono text (by omega)

/-- A mark that is found in a text stands within it. -/
theorem offset_le_of_blockMark {found : Located Unit}
    (h : firstMatch blockMarkPattern s = some found) : found.offset ≤ s.length := by
  obtain ⟨before, rest, hmatch⟩ := exists_of_firstMatch h
  by_contra hlt
  rw [List.drop_eq_nil_of_le (by omega), blockMarkPattern] at hmatch
  split at hmatch <;> cases hmatch

/-- A line has its content on the counted line of its number, which the comment at the top
reaches. -/
structure BlockLine.InTopComment (l : BlockLine) (text : List Char) : Prop where
  on_line : ∃ line, (splitAt '\n' text)[l.line - 1]? = some line ∧ l.content <:+: line
  reached : ReachesLine text l.line

/-- The lines of the block are on lines of the comment at the top, in order. -/
theorem of_mem_blockLinesOf (text : List Char) :
    (∀ l ∈ blockLinesOf text, l.InTopComment text) ∧
      (blockLinesOf text).Pairwise fun a b => a.line ≤ b.line := by
  have hnone : (∀ l ∈ ([] : List BlockLine), l.InTopComment text) ∧
      ([] : List BlockLine).Pairwise fun a b => a.line ≤ b.line :=
    ⟨fun l hl => absurd hl List.not_mem_nil, List.Pairwise.nil⟩
  unfold blockLinesOf
  split
  · exact hnone
  · rename_i header hheader
    split
    · exact hnone
    · rename_i mark hmark
      obtain ⟨before, comment, after, htop, front, back, htext, hoffset, hstart, hstop⟩ :=
        exists_topComment hheader
      have hmarkLe := offset_le_of_blockMark hmark
      have htake : (front ++ header.value.take mark.offset).length =
          header.offset + mark.offset := by
        rw [List.length_append, List.length_take, hoffset]
        omega
      have hblock : text = (front ++ header.value.take mark.offset) ++
          ((linesWithEnds (header.value.drop mark.offset)).flatten ++ back) := by
        rw [flatten_linesWithEnds, List.append_assoc, ← List.append_assoc (List.take _ _),
          List.take_append_drop]
        exact htext
      obtain ⟨hstand, hpairs⟩ :=
        of_mem_numberLines hblock fun raw hraw => newline_not_mem_content hraw
      rw [htake] at hstand hpairs
      refine ⟨fun l hl => ⟨(hstand l hl).on_line, before, comment, after, htop, ?_⟩, hpairs⟩
      obtain ⟨place, hfirst, hlast, hline⟩ := (hstand l hl).place
      rw [flatten_linesWithEnds, List.length_drop] at hlast
      exact ⟨place, by omega, by omega, hline⟩

/-! ## Targets of a block -/

/-- A line with a key has the name of a relation, a colon, and the value behind it. -/
theorem exists_of_keyLine {key value : List Char} (h : keyLine s = some (key, value)) :
    ∃ (r : Relation) (afterKey afterColon : List Char), key = r.name.toList ∧
      dropWord r.name.toList (dropBlanks s) = some afterKey ∧
      dropWord [':'] (dropBlanks afterKey) = some afterColon ∧ value = trim afterColon := by
  obtain ⟨⟨name, afterKey⟩, hkey, h⟩ := Option.bind_eq_some_iff.mp h
  obtain ⟨afterColon, hcolon, h⟩ := Option.bind_eq_some_iff.mp h
  cases h
  obtain ⟨word, hword, hdrop⟩ := List.exists_of_findSome?_eq_some hkey
  obtain ⟨r, -, rfl⟩ := List.mem_map.mp hword
  obtain ⟨u, hname, heq⟩ := Option.map_eq_some_iff.mp hdrop
  cases heq
  exact ⟨r, afterKey, afterColon, rfl, hname, hcolon, rfl⟩

/-- The value of a key is on its line. -/
theorem infix_of_keyLine {key value : List Char} (h : keyLine s = some (key, value)) :
    value <:+: s := by
  obtain ⟨r, afterKey, afterColon, -, hname, hcolon, rfl⟩ := exists_of_keyLine h
  have hcolonIn : afterColon <:+ afterKey :=
    (suffix_of_dropWord hcolon).trans (List.dropWhile_suffix isBlank)
  have hkeyIn : afterKey <:+ s := (suffix_of_dropWord hname).trans (List.dropWhile_suffix isBlank)
  exact (infix_trim afterColon).trans (hcolonIn.trans hkeyIn).isInfix

/-- An item is on a line below the key and above the next one. -/
theorem of_mem_followingItems {key : List Char} {rest : List BlockLine} {ref : RelationshipRef}
    (h : ref ∈ followingItems key rest) :
    ∃ l ∈ rest.takeWhile fun l => (keyLine l.content).isNone,
      ref = ⟨key, unquote (trim l.content).tail, l.line⟩ ∧ ref.target ≠ [] := by
  obtain ⟨l, hl, hvalue⟩ := List.mem_filterMap.mp h
  dsimp only at hvalue
  split at hvalue
  · cases hvalue
  · rename_i hne
    cases hvalue
    have hcut : (rest.takeWhile fun l =>
          (keyLine l.content).isNone && decide ((trim l.content).head? = some '-')) =
        (rest.takeWhile fun l => (keyLine l.content).isNone).takeWhile
          fun l => decide ((trim l.content).head? = some '-') := by
      rw [List.takeWhile_takeWhile]
      congr 1
      funext l
      rw [Bool.decide_and, Bool.decide_coe, Bool.decide_coe, Bool.and_comm]
    rw [hcut] at hl
    exact ⟨l, (List.takeWhile_prefix _).subset hl, rfl, by simpa using hne⟩

/-- The three ways in which a line gives targets. -/
theorem lineRefs_cases (l : BlockLine) (rest : List BlockLine) :
    lineRefs l rest = [] ∨ ∃ key value, keyLine l.content = some (key, value) ∧
      (lineRefs l rest =
          (commaValues (value.tail.takeWhile (· != ']'))).map (fun v => ⟨key, v, l.line⟩) ∨
        lineRefs l rest = followingItems key rest ∨
        value ≠ [] ∧ lineRefs l rest = [⟨key, unquote value, l.line⟩]) := by
  unfold lineRefs
  cases hkey : keyLine l.content with
  | none => exact Or.inl rfl
  | some found =>
      obtain ⟨key, value⟩ := found
      dsimp only
      split
      · exact Or.inr ⟨key, value, rfl, Or.inl rfl⟩
      · split
        · split
          · exact Or.inl rfl
          · rename_i hne
            exact Or.inr ⟨key, value, rfl, Or.inr (Or.inr ⟨by simpa using hne, rfl⟩)⟩
        · exact Or.inr ⟨key, value, rfl, Or.inr (Or.inl rfl)⟩

/-- Every target is on one of the lines, and they follow the order of the lines. -/
structure OnLines (refs : List RelationshipRef) (ls : List BlockLine) : Prop where
  mem : ∀ ref ∈ refs, ∃ l ∈ ls, ref.line = l.line ∧ ref.target <:+: l.content
  ordered : refs.Pairwise fun a b => a.line ≤ b.line

namespace OnLines

variable {refs refs' : List RelationshipRef} {ls ls' : List BlockLine}

theorem nil (ls : List BlockLine) : OnLines [] ls :=
  ⟨fun _ href => absurd href List.not_mem_nil, List.Pairwise.nil⟩

theorem append (h : OnLines refs ls) (hls : (ls ++ ls').Pairwise fun a b => a.line ≤ b.line)
    (h' : OnLines refs' ls') : OnLines (refs ++ refs') (ls ++ ls') where
  mem ref href := by
    rcases List.mem_append.mp href with href | href
    · obtain ⟨l, hl, hon⟩ := h.mem ref href
      exact ⟨l, List.mem_append_left ls' hl, hon⟩
    · obtain ⟨l, hl, hon⟩ := h'.mem ref href
      exact ⟨l, List.mem_append_right ls hl, hon⟩
  ordered := by
    refine List.pairwise_append.mpr ⟨h.ordered, h'.ordered, fun a ha b hb => ?_⟩
    obtain ⟨l, hl, hline, -⟩ := h.mem a ha
    obtain ⟨l', hl', hline', -⟩ := h'.mem b hb
    rw [hline, hline']
    exact (List.pairwise_append.mp hls).2.2 l hl l' hl'

/-- All the targets on one line are in order. -/
theorem of_line {l : BlockLine} (hl : l ∈ ls)
    (h : ∀ ref ∈ refs, ref.line = l.line ∧ ref.target <:+: l.content) : OnLines refs ls where
  mem ref href := ⟨l, hl, h ref href⟩
  ordered := List.pairwise_of_forall_mem_list fun a ha b hb => by rw [(h a ha).1, (h b hb).1]

end OnLines

theorem onLines_followingItems (key : List Char) {rest : List BlockLine}
    (hrest : rest.Pairwise fun a b => a.line ≤ b.line) :
    OnLines (followingItems key rest) (rest.takeWhile fun l => (keyLine l.content).isNone) where
  mem ref href := by
    obtain ⟨l, hl, rfl, -⟩ := of_mem_followingItems href
    have htail : (trim l.content).tail <:+: l.content :=
      (List.tail_suffix _).isInfix.trans (infix_trim l.content)
    exact ⟨l, hl, rfl, (infix_unquote _).trans htail⟩
  ordered := by
    refine List.Pairwise.filterMap _ (fun a b hle ref href ref' href' => ?_)
      (hrest.sublist (List.takeWhile_sublist _))
    dsimp only at href href'
    split at href <;> split at href' <;> cases href <;> cases href'
    exact hle

/-- A line gives targets from itself and from the lines below that have no key. -/
theorem onLines_lineRefs {l : BlockLine} {rest : List BlockLine}
    (hls : (l :: rest).Pairwise fun a b => a.line ≤ b.line) :
    OnLines (lineRefs l rest) (l :: rest.takeWhile fun l => (keyLine l.content).isNone) := by
  rcases lineRefs_cases l rest with hnone | ⟨key, value, hkey, hinline | hitems | ⟨-, hbare⟩⟩
  · rw [hnone]
    exact OnLines.nil _
  · rw [hinline]
    refine OnLines.of_line List.mem_cons_self fun ref href => ?_
    obtain ⟨v, hv, rfl⟩ := List.mem_map.mp href
    have hlist : value.tail.takeWhile (· != ']') <:+: value :=
      (List.takeWhile_prefix _).isInfix.trans (List.tail_suffix value).isInfix
    exact ⟨rfl, (of_mem_commaValues hv).1.trans (hlist.trans (infix_of_keyLine hkey))⟩
  · rw [hitems]
    have hown : OnLines [] [l] := OnLines.nil [l]
    exact hown.append (hls.sublist ((List.takeWhile_sublist _).cons_cons l))
      (onLines_followingItems key (List.pairwise_cons.mp hls).2)
  · rw [hbare]
    refine OnLines.of_line List.mem_cons_self fun ref href => ?_
    obtain rfl := List.mem_singleton.mp href
    exact ⟨rfl, (infix_unquote value).trans (infix_of_keyLine hkey)⟩

/-- The lines above the first key give nothing.  Said in this way the statement goes through a
list of lines one by one, although a key also reads the lines below it. -/
theorem onLines_blockLineRefs {ls : List BlockLine}
    (hls : ls.Pairwise fun a b => a.line ≤ b.line) :
    OnLines (blockLineRefs ls) (ls.dropWhile fun l => (keyLine l.content).isNone) := by
  induction ls with
  | nil => exact OnLines.nil _
  | cons l rest ih =>
      have hrest := (List.pairwise_cons.mp hls).2
      rw [blockLineRefs, List.dropWhile_cons]
      split
      · rename_i hnone
        rw [lineRefs_of_no_key (Option.isNone_iff_eq_none.mp hnone)]
        exact ih hrest
      · have hcut := List.takeWhile_append_dropWhile (l := rest)
          (p := fun l => (keyLine l.content).isNone)
        have happend := (onLines_lineRefs hls).append (by rwa [List.cons_append, hcut]) (ih hrest)
        rwa [List.cons_append, hcut] at happend

/-- **Targets of a block are where they are said to be.**  A target is a part of the line of its
number, lines being counted by line feeds alone, the comment at the top reaches this line, and
the numbers never go down. -/
theorem blockRefs_on_lines (text : List Char) :
    (∀ ref ∈ blockRefs text,
      1 ≤ ref.line ∧
        (∃ line, (splitAt '\n' text)[ref.line - 1]? = some line ∧ ref.target <:+: line) ∧
        ReachesLine text ref.line) ∧
      (blockRefs text).Pairwise fun a b => a.line ≤ b.line := by
  obtain ⟨hlines, hpairs⟩ := of_mem_blockLinesOf text
  have hrefs := onLines_blockLineRefs hpairs
  rw [blockRefs_eq]
  refine ⟨fun ref href => ?_, hrefs.ordered⟩
  obtain ⟨l, hl, hline, hinfix⟩ := hrefs.mem ref href
  obtain ⟨⟨line, hget, hcontent⟩, hreach⟩ := hlines l ((List.dropWhile_suffix _).subset hl)
  rw [← hline] at hget hreach
  refine ⟨?_, ⟨line, hget, hinfix.trans hcontent⟩, hreach⟩
  obtain ⟨-, -, -, -, place, -, -, hplace⟩ := hreach
  rw [← hplace]
  exact Nat.succ_pos _

/-- A block with a carriage return, a form feed and the two separators beyond the basic alphabet,
all of which end a line that is read but not a line that is counted. -/
def sampleSeparators : List Char :=
  "\n\x7b#\rrelationships:\x0c next: a\n children:\u0085 - b\u2028 - 'c'\n#\x7d".toList

theorem blockRefs_on_lines_sampleSeparators :
    ⟨"children".toList, ['c'], 3⟩ ∈ blockRefs sampleSeparators ∧ 1 ≤ 3 ∧
      (∃ line, (splitAt '\n' sampleSeparators)[3 - 1]? = some line ∧ ['c'] <:+: line) ∧
      ReachesLine sampleSeparators 3 :=
  have hmem : ⟨"children".toList, ['c'], 3⟩ ∈ blockRefs sampleSeparators := by decide +kernel
  ⟨hmem, (blockRefs_on_lines sampleSeparators).1 _ hmem⟩

end Folio.Source
