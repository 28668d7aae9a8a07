import Folio.Proofs.Source.Written
import Folio.Proofs.Text.Distinct
import Folio.Proofs.Text.Finding

/-!
# Spellings of tags

The tags of a template can be written in its frontmatter, as an inline list or as a list
with dashes, or in a comment of either kind.  Each spelling of a list of tags is read as
that list, without repetitions; the frontmatter is read whatever follows it.
-/

namespace Folio.Source

open Text

variable {s t rest : List Char} {ws : List Written}

/-! ## The frontmatter -/

/-- The frontmatter with a body. -/
def frontmatterText (body : List Char) : List Char :=
  "---\n".toList ++ body ++ "\n---".toList

theorem lineEnd_cons {c : Char} (hreturn : c ≠ '\r') (hfeed : c ≠ '\n') (s : List Char) :
    lineEnd (c :: s) = none := by
  unfold lineEnd
  split
  · rename_i h
    exact absurd (List.cons.inj h).1 hreturn
  · rename_i h
    exact absurd (List.cons.inj h).1 hfeed
  · rfl

theorem closingLine_cons {c : Char} (hc : isLineBoundary c = false) (s : List Char) :
    closingLine (c :: s) = none := by
  have hreturn : c ≠ '\r' := fun h => absurd hc (by rw [h]; decide)
  have hfeed : c ≠ '\n' := fun h => absurd hc (by rw [h]; decide)
  unfold closingLine
  rw [lineEnd_cons hreturn hfeed]
  rfl

/-- Nothing closes a block within one of its lines. -/
theorem quiet_closingLine (hs : ∀ c ∈ s, isLineBoundary c = false) (t : List Char) :
    Quiet closingLine s t := fun c _ hv =>
  closingLine_cons (hs c (hv.subset (List.mem_cons_self ..))) _

theorem closingLine_newline (h : dashes s = none) : closingLine ('\n' :: s) = none := by
  unfold closingLine
  rw [lineEnd, Option.bind_some, h]
  rfl

theorem beforeClosingLine_append (h : Quiet closingLine s t) :
    beforeClosingLine (s ++ t) =
      (beforeClosingLine t).map fun (body, rest) => (s ++ body, rest) := by
  induction s with
  | nil => simp
  | cons c s ih =>
      obtain ⟨hfirst, hrest⟩ := quiet_cons.1 h
      rw [List.cons_append] at hfirst ⊢
      rw [beforeClosingLine, hfirst]
      dsimp only
      rw [ih hrest, Option.map_map]
      rfl

/-- A block without a closing line of its own is read to the line that closes it. -/
theorem frontmatter_frontmatterText {body : List Char}
    (hbody : Quiet closingLine body ("\n---".toList ++ rest))
    (hrest : rest = [] ∨ ∃ r, rest = '\n' :: r) :
    frontmatter (frontmatterText body ++ rest) = some body := by
  have hclose : ∃ r, beforeClosingLine ("\n---".toList ++ rest) = some ([], r) := by
    rcases hrest with rfl | ⟨r, rfl⟩
    · exact ⟨_, rfl⟩
    · exact ⟨_, rfl⟩
  obtain ⟨r, hclose⟩ := hclose
  have hopen : (dashes (frontmatterText body ++ rest)).bind lineEnd =
      some (body ++ ("\n---".toList ++ rest)) := by
    unfold frontmatterText
    rw [List.append_assoc, List.append_assoc]
    rfl
  unfold frontmatter splitFrontmatter
  rw [hopen, Option.bind_some, beforeClosingLine_append hbody, hclose]
  simp

/-! ## Marks of tags -/

theorem dropWordAnyCase_append (word t : List Char) :
    dropWordAnyCase word (word ++ t) = some t := by
  induction word with
  | nil => rfl
  | cons c word ih => simp [dropWordAnyCase, ih]

theorem tagsMark_append (s : List Char) : tagsMark ("tags:".toList ++ s) = some s := by
  have hsplit : "tags:".toList ++ s = "tags".toList ++ ':' :: s := rfl
  unfold tagsMark
  rw [hsplit, dropWordAnyCase_append]
  rfl

/-! ## Lists of tags -/

/-- A list between spaces. -/
theorem splitTags_itemsText (ws : List Written) (before after : List Char)
    (hbefore : ∀ c ∈ before, c = ' ') (hafter : ∀ c ∈ after, c = ' ') :
    splitTags (before ++ itemsText ws ++ after) = ws.map Written.value := by
  have hblank : ∀ {s : List Char}, (∀ c ∈ s, c = ' ') → ∀ c ∈ s, isBlank c = true :=
    fun hs c hc => hs c hc ▸ by decide
  have htrim : trim (before ++ itemsText ws ++ after) = itemsText ws := by
    rw [trim_append_right _ (hblank hafter), trim_append_left (hblank hbefore), trim_itemsText]
  have hbracket : ∀ c ∈ itemsText ws, c ≠ '[' ∧ c ≠ ']' := by
    intro c hc
    rcases mem_itemsText hc with rfl | rfl | ⟨w, -, hc⟩
    · decide
    · decide
    · exact (Written.of_mem_text hc).2.2.2
  have hopen : (itemsText ws).head? ≠ some '[' := fun h =>
    (hbracket _ (List.mem_of_mem_head? h)).1 rfl
  have hclose : (itemsText ws).getLast? ≠ some ']' := fun h =>
    (hbracket _ (List.mem_of_mem_getLast? h)).2 rfl
  unfold splitTags
  rw [htrim]
  dsimp only
  rw [if_neg hopen, if_neg hclose]
  have hkept : ∀ w ∈ ws, ∀ c ∈ w.text, (c == ',' || c == '\n') = false := by
    intro w _ c hc
    obtain ⟨hblank, -, hcomma, -⟩ := Written.of_mem_text hc
    have hfeed : c ≠ '\n' := fun h => absurd hblank (by rw [h]; decide)
    simp [hcomma, hfeed]
  have hvalues := listValues_itemsText (p := fun c => c == ',' || c == '\n') (by decide)
    (by decide) hkept [] [] (by simp) (by simp)
  simpa using hvalues

/-- A list with dashes is read line by line. -/
theorem dashItems_dashLines (indent : Nat) (ws : List Written) :
    dashItems (ws.map (dashLine indent)) = ws.map Written.value := by
  induction ws with
  | nil => rfl
  | cons w ws ih =>
      unfold dashItems at ih ⊢
      dsimp only at ih ⊢
      have hvalue := unquote_dashLine indent w
      have hne : w.value.isEmpty = false := by simpa using w.ne_nil
      rw [trim_dashLine] at hvalue
      simp only [List.map_cons, trim_dashLine, List.filter_cons, List.isEmpty_cons, Bool.not_false,
        if_true, List.takeWhile_cons, List.head?_cons, decide_true, hvalue, hne]
      exact congrArg _ ih

/-! ## Spellings -/

/-- The ways to write the tags of a template. -/
inductive TagSpelling
  | inlineList
  | dashList (indent : Nat)
  | comment
  | markupComment
  deriving Repr, DecidableEq

/-- An inline list, as the body of the frontmatter. -/
def inlineBlock (ws : List Written) : List Char :=
  "tags: [".toList ++ itemsText ws ++ "]".toList

/-- A list with dashes, as the body of the frontmatter. -/
def dashBlock (indent : Nat) (ws : List Written) : List Char :=
  "tags:".toList ++ ws.flatMap fun w => '\n' :: dashLine indent w

/-- Tags as they are written. -/
def TagSpelling.text : TagSpelling → List Written → List Char
  | .inlineList, ws => frontmatterText (inlineBlock ws)
  | .dashList indent, ws => frontmatterText (dashBlock indent ws)
  | .comment, ws => "\x7b# tags: ".toList ++ itemsText ws ++ " #\x7d".toList
  | .markupComment, ws => "<!-- tags: ".toList ++ itemsText ws ++ " -->".toList

/-! ## Reading the frontmatter -/

/-- An inline list is one line. -/
theorem not_boundary_of_mem_inlineBlock {c : Char}
    (hc : c ∈ inlineBlock ws) : isLineBoundary c = false := by
  unfold inlineBlock at hc
  have hopen : ∀ c ∈ "tags: [".toList, isLineBoundary c = false :=
    not_boundary_of_all (by decide)
  have hclose : ∀ c ∈ "]".toList, isLineBoundary c = false :=
    not_boundary_of_all (by decide)
  rw [List.mem_append, List.mem_append] at hc
  rcases hc with (hc | hc) | hc
  · exact hopen c hc
  · exact not_boundary_of_mem_itemsText hc
  · exact hclose c hc

/-- No line of a list with dashes ends the frontmatter. -/
theorem quiet_dashLines (indent : Nat) (ws : List Written) (t : List Char) :
    Quiet closingLine (ws.flatMap fun w => '\n' :: dashLine indent w) t := by
  induction ws with
  | nil => exact quiet_nil _ _
  | cons w ws ih =>
      rw [List.flatMap_cons]
      refine Quiet.append ?_ ih
      rw [quiet_cons]
      refine ⟨closingLine_newline ?_, quiet_closingLine (fun c => not_boundary_of_mem_dashLine) _⟩
      unfold dashLine
      cases indent with
      | zero => rfl
      | succ indent => rfl

theorem frontmatter_inlineBlock (hrest : rest = [] ∨ ∃ r, rest = '\n' :: r) :
    frontmatter (frontmatterText (inlineBlock ws) ++ rest) = some (inlineBlock ws) :=
  frontmatter_frontmatterText (quiet_closingLine (fun _ => not_boundary_of_mem_inlineBlock) _)
    hrest

theorem frontmatter_dashBlock (indent : Nat) (hrest : rest = [] ∨ ∃ r, rest = '\n' :: r) :
    frontmatter (frontmatterText (dashBlock indent ws) ++ rest) = some (dashBlock indent ws) :=
  frontmatter_frontmatterText
    (.append (quiet_closingLine (not_boundary_of_all (by decide)) _) (quiet_dashLines indent ws _))
    hrest

/-! ## Reading lists in the frontmatter -/

theorem firstMatch_inlineBlock :
    firstMatch inlineTagsPattern (inlineBlock ws) = some ⟨0, itemsText ws⟩ := by
  have hclose : ∀ c ∈ itemsText ws, (c != ']') = true := by
    intro c hc
    rcases mem_itemsText hc with rfl | rfl | ⟨w, -, hc⟩
    · decide
    · decide
    · simpa using (Written.of_mem_text hc).2.2.2.2
  have hmark : inlineBlock ws = "tags:".toList ++ (' ' :: '[' :: (itemsText ws ++ [']'])) := by
    unfold inlineBlock
    rw [List.append_assoc]
    rfl
  have hopen : dropWord ['['] (dropBlanks (' ' :: '[' :: (itemsText ws ++ [']']))) =
      some (itemsText ws ++ [']']) := rfl
  have hread : inlineTagsPattern none (inlineBlock ws) = some (itemsText ws, []) := by
    unfold inlineTagsPattern
    rw [if_pos (by rfl), hmark, tagsMark_append]
    simp only [bind, Option.bind_some, hopen]
    rw [List.dropWhile_append_of_pos hclose, List.takeWhile_append_of_pos hclose]
    simp
  exact firstMatch_cons hread

theorem frontmatterTags_inlineList (hrest : rest = [] ∨ ∃ r, rest = '\n' :: r) :
    frontmatterTags (TagSpelling.text .inlineList ws ++ rest) = ws.map Written.value := by
  have hvalues := splitTags_itemsText ws [] [] (by simp) (by simp)
  unfold frontmatterTags TagSpelling.text
  rw [frontmatter_inlineBlock hrest]
  dsimp only
  rw [firstMatch_inlineBlock]
  simpa using hvalues

theorem tagsMark_suffix (h : tagsMark s = some rest) : rest <:+ s := by
  obtain ⟨after, hword, h⟩ := Option.bind_eq_some_iff.1 h
  exact (suffix_of_dropWord h).trans
    ((List.dropWhile_suffix _).trans (suffix_of_dropWordAnyCase hword))

/-- A list with dashes has no bracket, so it is not taken for an inline list. -/
theorem inlineTagsPattern_eq_none {before : Option Char} (hs : '[' ∉ s) :
    inlineTagsPattern before s = none := by
  unfold inlineTagsPattern
  split
  · cases hmark : tagsMark s with
    | none => rfl
    | some rest =>
        have hsuffix : rest <:+ s := tagsMark_suffix hmark
        have hnone : dropWord ['['] (dropBlanks rest) = none := by
          cases hopen : dropWord ['['] (dropBlanks rest) with
          | none => rfl
          | some after =>
              have hstart := eq_append_of_dropWord hopen
              have hmem : '[' ∈ dropBlanks rest := by rw [hstart]; simp
              exact absurd (hsuffix.subset ((List.dropWhile_suffix _).subset hmem)) hs
        simp [hnone]
  · rfl

theorem joinWith_newline (first : List Char) (ls : List (List Char)) :
    joinWith ['\n'] (first :: ls) = first ++ ls.flatMap ('\n' :: ·) := by
  induction ls generalizing first with
  | nil => simp
  | cons l ls ih =>
      rw [joinWith_cons _ _ (List.cons_ne_nil l ls), ih, List.flatMap_cons]
      rfl

theorem afterBlankLines_dashLine (indent : Nat) (w : Written) (t : List Char) :
    afterBlankLines ('\n' :: (dashLine indent w ++ t)) = some (dashLine indent w ++ t) := by
  have hspace : ∀ c ∈ List.replicate indent ' ', isBlank c = true := fun c hc =>
    List.eq_of_mem_replicate hc ▸ by decide
  have hfeed : ∀ c ∈ List.replicate indent ' ', (c != '\n') = true := fun c hc =>
    List.eq_of_mem_replicate hc ▸ by decide
  have hblanks : ('\n' :: (dashLine indent w ++ t)).takeWhile isBlank =
      '\n' :: List.replicate indent ' ' := by
    unfold dashLine
    rw [List.takeWhile_cons_of_pos (by decide), List.append_assoc,
      List.takeWhile_append_of_pos hspace, List.cons_append,
      List.takeWhile_cons_of_neg (by decide), List.append_nil]
  have hrest : ('\n' :: (dashLine indent w ++ t)).dropWhile isBlank =
      '-' :: ' ' :: w.text ++ t := by
    unfold dashLine
    rw [List.dropWhile_cons_of_pos (by decide), List.append_assoc,
      List.dropWhile_append_of_pos hspace, List.cons_append,
      List.dropWhile_cons_of_neg (by decide)]
  have htail : ('\n' :: List.replicate indent ' ').reverse.takeWhile (· != '\n') =
      List.replicate indent ' ' := by
    rw [List.reverse_cons, List.reverse_replicate, List.takeWhile_append_of_pos hfeed]
    simp
  unfold afterBlankLines
  dsimp only
  rw [hblanks, hrest, htail, if_pos (by simp), List.reverse_replicate]
  unfold dashLine
  rw [List.append_assoc]

theorem bracket_not_mem_dashBlock (indent : Nat) (ws : List Written) :
    '[' ∉ dashBlock indent ws := by
  intro hmem
  rcases List.mem_append.1 hmem with hmem | hmem
  · exact absurd hmem (by decide)
  · obtain ⟨w, -, hmem⟩ := List.mem_flatMap.1 hmem
    rcases mem_dashLine ((List.mem_cons.1 hmem).resolve_left (by decide)) with h | h | h
    · exact absurd h (by decide)
    · exact absurd h (by decide)
    · exact (Written.of_mem_text h).2.2.2.1 rfl

theorem firstMatch_dashBlock (indent : Nat) (hne : ws ≠ []) :
    firstMatch listedTagsPattern (dashBlock indent ws) =
      some ⟨0, joinWith ['\n'] (ws.map (dashLine indent))⟩ := by
  obtain ⟨w, others, rfl⟩ := List.exists_cons_of_ne_nil hne
  have hread : listedTagsPattern none (dashBlock indent (w :: others)) =
      some (joinWith ['\n'] ((w :: others).map (dashLine indent)), []) := by
    unfold listedTagsPattern dashBlock
    rw [if_pos (by rfl), tagsMark_append, List.flatMap_cons, List.cons_append, List.map_cons,
      joinWith_newline, List.flatMap_map]
    simp only [bind, Option.bind_some, afterBlankLines_dashLine]
    rfl
  exact firstMatch_cons hread

theorem frontmatterTags_dashList (indent : Nat) (hne : ws ≠ [])
    (hrest : rest = [] ∨ ∃ r, rest = '\n' :: r) :
    frontmatterTags (TagSpelling.text (.dashList indent) ws ++ rest) = ws.map Written.value := by
  have hinline : firstMatch inlineTagsPattern (dashBlock indent ws) = none :=
    firstMatch_eq_none fun _ _ _ hv =>
      inlineTagsPattern_eq_none fun h => bracket_not_mem_dashBlock indent ws (hv.subset h)
  have hlines : lines (joinWith ['\n'] (ws.map (dashLine indent))) = ws.map (dashLine indent) := by
    refine lines_joinWith (fun l hl => ?_) fun l hl c hc => ?_
    · obtain ⟨w, -, rfl⟩ := List.mem_map.1 hl
      unfold dashLine
      simp
    · obtain ⟨w, -, rfl⟩ := List.mem_map.1 hl
      exact not_boundary_of_mem_dashLine hc
  unfold frontmatterTags TagSpelling.text
  rw [frontmatter_dashBlock indent hrest]
  dsimp only
  rw [hinline, firstMatch_dashBlock indent hne]
  dsimp only
  rw [hlines, dashItems_dashLines]

/-! ## Reading comments -/

theorem dropBlanks_tags (s : List Char) :
    dropBlanks (' ' :: ("tags:".toList ++ s)) = "tags:".toList ++ s := rfl

theorem commentTagsPattern_append (s : List Char) :
    commentTagsPattern ("\x7b# tags:".toList ++ s) = commentValue s := by
  have hopen : dropWord ['{', '#'] ("\x7b# tags:".toList ++ s) =
      some (' ' :: ("tags:".toList ++ s)) := rfl
  have hhyphen : dropOne ['-'] (' ' :: ("tags:".toList ++ s)) = ' ' :: ("tags:".toList ++ s) := rfl
  unfold commentTagsPattern
  simp only [bind, hopen, Option.bind_some, hhyphen, dropBlanks_tags, tagsMark_append]

theorem markupTagsPattern_append (s : List Char) :
    markupTagsPattern ("<!-- tags:".toList ++ s) = splitAtWord "-->".toList s := by
  have hopen : dropWord "<!--".toList ("<!-- tags:".toList ++ s) =
      some (' ' :: ("tags:".toList ++ s)) := rfl
  unfold markupTagsPattern
  simp only [bind, hopen, Option.bind_some, dropBlanks_tags, tagsMark_append]

theorem commentTags_comment :
    commentTags (TagSpelling.text .comment ws) = ws.map Written.value := by
  obtain ⟨after, hafter, hvalue⟩ := commentValue_itemsText ws []
  have hmark : TagSpelling.text .comment ws =
      "\x7b# tags:".toList ++ (' ' :: (itemsText ws ++ " #\x7d".toList) ++ []) := by
    show "\x7b# tags: ".toList ++ itemsText ws ++ " #\x7d".toList = _
    rw [List.append_assoc, List.append_nil]
    rfl
  rw [← commentTagsPattern_append, ← hmark] at hvalue
  have hfound : firstMatch (fun _ => commentTagsPattern) (TagSpelling.text .comment ws) =
      some ⟨0, itemsText ws ++ after⟩ :=
    firstMatch_cons hvalue
  unfold commentTags
  rw [hfound]
  exact splitTags_itemsText ws [] _ (by simp) hafter

/-- A list of tags without `>` does not end a comment of HTML. -/
theorem quiet_closeMarkup (hws : ∀ w ∈ ws, '>' ∉ w.value) (t : List Char) :
    Quiet (dropWord "-->".toList) (' ' :: (itemsText ws ++ [' '])) t := by
  have hmark : '>' ∉ ' ' :: (itemsText ws ++ [' ']) := by
    intro h
    simp only [List.mem_cons, List.mem_append, List.not_mem_nil, or_false] at h
    rcases h with h | h | h
    · exact absurd h (by decide)
    · rcases mem_itemsText h with h | h | ⟨w, hw, h⟩
      · exact absurd h (by decide)
      · exact absurd h (by decide)
      · rcases Written.mem_of_mem_text h with h | h | h
        · exact hws w hw h
        · exact absurd h (by decide)
        · exact absurd h (by decide)
    · exact absurd h (by decide)
  have hlast : (' ' :: (itemsText ws ++ [' '])).getLast? = some ' ' := by
    rw [← List.cons_append, List.getLast?_concat]
  intro c v hv
  cases hdrop : dropWord "-->".toList (c :: v ++ t) with
  | none => rfl
  | some after =>
      exfalso
      have hstart := eq_append_of_dropWord hdrop
      have hend : (c :: v).getLast? = some ' ' := by
        obtain ⟨front, hfront⟩ := hv
        rw [← hfront, List.getLast?_append_of_ne_nil _ (List.cons_ne_nil c v)] at hlast
        exact hlast
      match v, hv, hstart, hend with
      | [], _, hstart, hend =>
          rw [show c = ' ' from Option.some.inj hend] at hstart
          exact absurd (List.cons.inj hstart).1 (by decide)
      | [d], _, hstart, hend =>
          rw [show d = ' ' from Option.some.inj hend] at hstart
          exact absurd (List.cons.inj (List.cons.inj hstart).2).1 (by decide)
      | d :: e :: v, hv, hstart, _ =>
          have he : e = '>' := (List.cons.inj (List.cons.inj (List.cons.inj hstart).2).2).1
          exact hmark (hv.subset (by simp [he]))

theorem markupCommentTags_markupComment (hws : ∀ w ∈ ws, '>' ∉ w.value) :
    markupCommentTags (TagSpelling.text .markupComment ws) = ws.map Written.value := by
  have hmark : TagSpelling.text .markupComment ws =
      "<!-- tags:".toList ++ (' ' :: (itemsText ws ++ [' ']) ++ ("-->".toList ++ [])) := by
    show "<!-- tags: ".toList ++ itemsText ws ++ " -->".toList = _
    rw [List.append_assoc, List.append_nil, List.cons_append, List.append_assoc]
    rfl
  have hread : markupTagsPattern (TagSpelling.text .markupComment ws) =
      some (' ' :: (itemsText ws ++ [' ']), []) := by
    rw [hmark, markupTagsPattern_append, splitAtWord_append (by decide) (quiet_closeMarkup hws _)]
  have hfound : firstMatch (fun _ => markupTagsPattern) (TagSpelling.text .markupComment ws) =
      some ⟨0, ' ' :: (itemsText ws ++ [' '])⟩ :=
    firstMatch_cons hread
  unfold markupCommentTags
  rw [hfound]
  exact splitTags_itemsText ws [' '] [' '] (by simp) (by simp)

/-! ## The spelling that is read -/

theorem frontmatterTags_cons {c : Char} (hc : c ≠ '-') (s : List Char) :
    frontmatterTags (c :: s) = [] := by
  have hnone : frontmatter (c :: s) = none := by
    unfold frontmatter splitFrontmatter dashes
    rw [dropWord_cons_ne (Ne.symm hc)]
    rfl
  unfold frontmatterTags
  rw [hnone]

theorem commentTags_eq_nil (hs : '#' ∉ s) : commentTags s = [] := by
  have hnone : firstMatch (fun _ => commentTagsPattern) s = none := by
    refine firstMatch_eq_none fun _ c v hv => ?_
    have hopen : dropWord ['{', '#'] (c :: v) = none := by
      cases hdrop : dropWord ['{', '#'] (c :: v) with
      | none => rfl
      | some rest =>
          exact absurd (hv.subset (by rw [eq_append_of_dropWord hdrop]; simp)) hs
    unfold commentTagsPattern
    rw [hopen]
    rfl
  unfold commentTags
  rw [hnone]

theorem hash_not_mem_markupComment (ws : List Written) :
    '#' ∉ TagSpelling.text .markupComment ws := by
  have hopen : '#' ∉ "<!-- tags: ".toList := by decide
  have hclose : '#' ∉ " -->".toList := by decide
  show '#' ∉ "<!-- tags: ".toList ++ itemsText ws ++ " -->".toList
  rw [List.mem_append, List.mem_append]
  rintro ((h | h) | h)
  · exact hopen h
  · exact hash_not_mem_itemsText ws h
  · exact hclose h

/-- The first of the three sources that has tags decides. -/
theorem tags_eq {values : List (List Char)} (hne : values ≠ [])
    (h : frontmatterTags s = values ∨ frontmatterTags s = [] ∧ commentTags s = values ∨
      frontmatterTags s = [] ∧ commentTags s = [] ∧ markupCommentTags s = values) :
    tags s = values.eraseDups := by
  have hempty : distinct ([] : List (List Char)) = [] := rfl
  obtain ⟨first, rest, hfound⟩ : ∃ first rest, distinct values = first :: rest := by
    obtain ⟨first, rest, rfl⟩ := List.exists_cons_of_ne_nil hne
    exact ⟨first, _, (distinct_eq_eraseDups _).trans List.eraseDups_cons⟩
  rw [← distinct_eq_eraseDups, hfound]
  unfold tags
  rcases h with h | ⟨hfront, h⟩ | ⟨hfront, hcomment, h⟩
  · simp only [List.findSome?_cons, h, hfound, Option.getD_some]
  · simp only [List.findSome?_cons, hfront, hempty, h, hfound, Option.getD_some]
  · simp only [List.findSome?_cons, hfront, hcomment, hempty, h, hfound, Option.getD_some]

/-- Whether tags are written in the frontmatter. -/
def TagSpelling.IsFrontmatter (spelling : TagSpelling) : Prop :=
  spelling = .inlineList ∨ ∃ indent, spelling = .dashList indent

theorem TagSpelling.IsFrontmatter.frontmatterTags_text {spelling : TagSpelling}
    (h : spelling.IsFrontmatter) (hne : ws ≠ []) (hrest : rest = [] ∨ ∃ r, rest = '\n' :: r) :
    frontmatterTags (spelling.text ws ++ rest) = ws.map Written.value := by
  rcases h with rfl | ⟨indent, rfl⟩
  · exact frontmatterTags_inlineList hrest
  · exact frontmatterTags_dashList indent hne hrest

/-- Every spelling of a list of tags is read as the first occurrences in the list, and so
as the list itself if its tags are distinct.  In the frontmatter, a list is read so
whatever follows it, other spellings included. -/
theorem tags_text (spelling : TagSpelling) {ws : List Written} (hne : ws ≠ [])
    (hws : ∀ w ∈ ws, '>' ∉ w.value) :
    tags (spelling.text ws) = (ws.map Written.value).eraseDups ∧
      ((ws.map Written.value).Nodup → tags (spelling.text ws) = ws.map Written.value) ∧
      (spelling.IsFrontmatter → ∀ rest,
        tags (spelling.text ws ++ '\n' :: rest) = (ws.map Written.value).eraseDups) := by
  have hvalues : ws.map Written.value ≠ [] := by simpa using hne
  have hfront : spelling.IsFrontmatter → ∀ rest, (rest = [] ∨ ∃ r, rest = '\n' :: r) →
      tags (spelling.text ws ++ rest) = (ws.map Written.value).eraseDups := fun h _ hrest =>
    tags_eq hvalues (.inl (h.frontmatterTags_text hne hrest))
  have hread : tags (spelling.text ws) = (ws.map Written.value).eraseDups := by
    have hnothing := fun h => hfront h [] (.inl rfl)
    rw [List.append_nil] at hnothing
    cases spelling with
    | inlineList => exact hnothing (.inl rfl)
    | dashList indent => exact hnothing (.inr ⟨indent, rfl⟩)
    | comment =>
        exact tags_eq hvalues (.inr (.inl
          ⟨frontmatterTags_cons (by decide) _, commentTags_comment⟩))
    | markupComment =>
        exact tags_eq hvalues (.inr (.inr ⟨frontmatterTags_cons (by decide) _,
          commentTags_eq_nil (hash_not_mem_markupComment ws),
          markupCommentTags_markupComment hws⟩))
  refine ⟨hread, fun hnodup => ?_, fun h rest => hfront h _ (.inr ⟨rest, rfl⟩)⟩
  rw [hread, eraseDups_of_nodup hnodup]

/-- Three tags, each written in another way; one consists of the marks of a list. -/
def sampleTags : List Written :=
  [⟨.double, ['n', 'e', 'w'], by decide, List.all_eq_true.1 (by decide)⟩,
    ⟨.bare, ['-', '-'], by decide, List.all_eq_true.1 (by decide)⟩,
    ⟨.single, ['t', 'a', 'g', 's', ':'], by decide, List.all_eq_true.1 (by decide)⟩]

example : TagSpelling.text (.dashList 2) sampleTags =
    "---\ntags:\n  - \"new\"\n  - --\n  - 'tags:'\n---".toList := rfl

/-- As a list with dashes they are read in order, and before a comment with other tags. -/
theorem tags_text_sampleTags :
    sampleTags ≠ [] ∧ (∀ w ∈ sampleTags, '>' ∉ w.value) ∧
      (sampleTags.map Written.value).Nodup ∧ TagSpelling.IsFrontmatter (.dashList 2) ∧
      tags (TagSpelling.text (.dashList 2) sampleTags) =
        ["new".toList, "--".toList, "tags:".toList] ∧
      tags (TagSpelling.text (.dashList 2) sampleTags ++ "\n\x7b# tags: old #\x7d".toList) =
        ["new".toList, "--".toList, "tags:".toList] := by
  have hclean : ∀ w ∈ sampleTags, '>' ∉ w.value := by decide
  have hnodup : (sampleTags.map Written.value).Nodup := by decide
  have hfront : TagSpelling.IsFrontmatter (.dashList 2) := .inr ⟨2, rfl⟩
  have hne : sampleTags ≠ [] := by decide
  obtain ⟨-, hdistinct, hfirst⟩ := tags_text (.dashList 2) hne hclean
  exact ⟨hne, hclean, hnodup, hfront, hdistinct hnodup, hfirst hfront _⟩

end Folio.Source
