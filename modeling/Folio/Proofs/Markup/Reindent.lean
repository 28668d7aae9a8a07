import Folio.Proofs.Markup.Writing
import Folio.Proofs.Text.Cutting
import Mathlib.Data.List.Basic

/-!
# Script bodies are indented once

A script body is printed without its common indentation, without blank lines at
its ends and without blanks at the ends of its lines, one level below its element.
Printed once, it is a body whose common indentation is that level, so printing it
again changes nothing: `scriptLines_reindented`.

The argument follows the lines that are not blank.  Their common indentation is
gone after the first printing (`sharedStart_append`), so that what all lines share
afterwards is just the new indentation.
-/

namespace Folio.Markup

open Text

/-! ## Common indentation -/

/-- What all texts of a list begin with; nothing for the empty list. -/
def sharedStart : List (List Char) → List Char
  | [] => []
  | first :: others => others.foldl commonStart first

theorem commonStart_append (m s t : List Char) :
    commonStart (m ++ s) (m ++ t) = m ++ commonStart s t := by
  induction m with
  | nil => rfl
  | cons c m ih => simp [commonStart, ih]

theorem sharedStart_append (m : List Char) {ss : List (List Char)} (hne : ss ≠ []) :
    sharedStart (ss.map (m ++ ·)) = m ++ sharedStart ss := by
  obtain ⟨first, others, rfl⟩ := List.exists_cons_of_ne_nil hne
  simp only [List.map_cons, sharedStart]
  clear hne
  induction others generalizing first with
  | nil => rfl
  | cons next rest ih =>
      simp only [List.map_cons, List.foldl_cons, commonStart_append, ih]

theorem commonIndent_eq (ls : List (List Char)) :
    commonIndent ls =
      sharedStart ((ls.filter fun line => !isBlankLine line).map (·.takeWhile isSpaceOrTab)) := rfl

/-! ## Lines -/

/-- A line whose white space is spaces and tabs. -/
def IsTame (line : List Char) : Prop :=
  ∀ c ∈ line, isBlank c = isSpaceOrTab c

/-- The part of a line that is printed. -/
def printed (line : List Char) : List Char :=
  trimRight isBlank line

/-- A tame line that is not blank, around its first character of ink. -/
theorem exists_ink {line : List Char} (htame : IsTame line) (hline : isBlankLine line = false) :
    ∃ before c after, line = before ++ c :: after ∧ isSpaceOrTab c = false ∧ isBlank c = false := by
  rw [isBlankLine, List.all_eq_false] at hline
  obtain ⟨c, hmem, hc⟩ := hline
  obtain ⟨before, after, rfl⟩ := List.append_of_mem hmem
  have hc : isSpaceOrTab c = false := by simpa using hc
  exact ⟨before, c, after, rfl, hc, by rw [htame c hmem, hc]⟩

theorem printed_isPrefix (line : List Char) : printed line <+: line := by
  rw [printed, trimRight, ← List.reverse_suffix, List.reverse_reverse]
  exact List.dropWhile_suffix _

theorem takeWhile_printed {line : List Char} (htame : IsTame line)
    (hline : isBlankLine line = false) :
    (printed line).takeWhile isSpaceOrTab = line.takeWhile isSpaceOrTab := by
  obtain ⟨before, c, after, rfl, hspace, hblank⟩ := exists_ink htame hline
  rw [printed, trimRight_append_cons_of_neg before hblank, takeWhile_append_cons_of_neg before hspace,
    takeWhile_append_cons_of_neg before hspace]

theorem isBlankLine_printed {line : List Char} (htame : IsTame line)
    (hline : isBlankLine line = false) : isBlankLine (printed line) = false := by
  obtain ⟨before, c, after, rfl, hspace, hblank⟩ := exists_ink htame hline
  rw [printed, trimRight_append_cons_of_neg before hblank, isBlankLine, List.all_eq_false]
  exact ⟨c, by simp, by simp [hspace]⟩

theorem indent_blank (depth : Nat) : ∀ c ∈ indent depth, isSpaceOrTab c = true := by
  intro c hc
  rw [indent, List.mem_replicate] at hc
  rw [hc.2]
  rfl

theorem isBlankLine_append {front line : List Char} (hfront : ∀ c ∈ front, isSpaceOrTab c = true) :
    isBlankLine (front ++ line) = isBlankLine line := by
  rw [isBlankLine, List.all_append, List.all_eq_true.mpr hfront, Bool.true_and]
  rfl

/-! ## Lines without a common indentation -/

/-- The lines of a body as they are printed, but not yet indented: the blank ones
are empty, and the others share no indentation. -/
structure Dedented (ls : List (List Char)) : Prop where
  tame : ∀ line ∈ ls, IsTame line
  blank : ∀ line ∈ ls, isBlankLine line = true → line = []
  shared : sharedStart ((ls.filter fun line => !isBlankLine line).map
    (·.takeWhile isSpaceOrTab)) = []

/-- The lines with ink, before and after their margin is removed. -/
theorem filter_ink {margin : List Char} {ls : List (List Char)}
    (h : ∀ line ∈ ls, isBlankLine line = false →
      ∃ rest, line = margin ++ rest ∧ isBlankLine rest = false) :
    (ls.filter fun line => !isBlankLine line) =
      ((ls.map fun line => if isBlankLine line then [] else line.drop margin.length).filter
        fun line => !isBlankLine line).map (margin ++ ·) := by
  induction ls with
  | nil => rfl
  | cons line rest ih =>
      have hrest := ih fun l hl => h l (List.mem_cons_of_mem _ hl)
      have hnil : isBlankLine [] = true := rfl
      cases hblank : isBlankLine line with
      | true =>
          simp only [List.filter_cons, List.map_cons, hblank, hnil, Bool.not_true,
            Bool.false_eq_true, if_true, if_false]
          exact hrest
      | false =>
          obtain ⟨tail, htail, hink⟩ := h line (List.mem_cons_self ..) hblank
          have hdrop : line.drop margin.length = tail := by
            rw [htail, List.drop_left]
          simp only [List.filter_cons, hblank, Bool.not_false, if_true, List.map_cons,
            Bool.false_eq_true, if_false, hdrop, hink]
          rw [hrest, ← htail]

theorem dedented_dedent {ls : List (List Char)} (htame : ∀ line ∈ ls, IsTame line) :
    Dedented (dedent ls) := by
  have hmargin : ∀ line ∈ ls, isBlankLine line = false →
      ∃ rest, line = commonIndent ls ++ rest ∧ isBlankLine rest = false := by
    intro line hline hblank
    have hstart := commonIndent_isPrefix_line hline hblank
    obtain ⟨rest, hrest⟩ := hstart.trans (List.takeWhile_prefix _)
    refine ⟨rest, hrest.symm, ?_⟩
    rw [← hrest, isBlankLine_append fun c hc => List.mem_takeWhile_imp (hstart.subset hc)] at hblank
    exact hblank
  have hblankMargin : (ls.filter fun line => !isBlankLine line) ≠ [] →
      ∀ c ∈ commonIndent ls, isSpaceOrTab c = true := by
    intro hne c hc
    obtain ⟨line, hline⟩ := List.exists_mem_of_ne_nil _ hne
    obtain ⟨hmem, hblank⟩ := List.mem_filter.mp hline
    exact List.mem_takeWhile_imp
      ((commonIndent_isPrefix_line hmem (by simpa using hblank)).subset hc)
  -- the lines with ink are those of the source, less the margin
  have hfilter : (ls.filter fun line => !isBlankLine line) =
      ((dedent ls).filter fun line => !isBlankLine line).map (commonIndent ls ++ ·) :=
    filter_ink hmargin
  refine ⟨?_, ?_, ?_⟩
  · intro line hline c hc
    obtain ⟨source, hsource, rfl⟩ := List.mem_map.mp hline
    split at hc
    · cases hc
    · exact htame source hsource c (List.mem_of_mem_drop hc)
  · intro line hline hblank
    obtain ⟨source, hsource, rfl⟩ := List.mem_map.mp hline
    split
    · rfl
    · rename_i hsourceBlank
      obtain ⟨tail, htail, hink⟩ := hmargin source hsource (by simpa using hsourceBlank)
      rw [if_neg hsourceBlank] at hblank
      rw [htail, List.drop_left, hink] at hblank
      cases hblank
  · by_cases hne : (ls.filter fun line => !isBlankLine line) = []
    · have hnone : ((dedent ls).filter fun line => !isBlankLine line) = [] := by
        rw [hne] at hfilter
        exact List.map_eq_nil_iff.mp hfilter.symm
      rw [hnone]
      rfl
    · have hindent := commonIndent_eq ls
      have hstart : ∀ line : List Char, (commonIndent ls ++ line).takeWhile isSpaceOrTab =
          commonIndent ls ++ line.takeWhile isSpaceOrTab := fun line =>
        List.takeWhile_append_of_pos (hblankMargin hne)
      have hnonempty : ((dedent ls).filter fun line => !isBlankLine line).map
          (·.takeWhile isSpaceOrTab) ≠ [] := by
        intro hnil
        rw [List.map_eq_nil_iff] at hnil
        rw [hnil] at hfilter
        exact hne hfilter
      have hmap : (((dedent ls).filter fun line => !isBlankLine line).map
          (commonIndent ls ++ ·)).map (·.takeWhile isSpaceOrTab) =
            (((dedent ls).filter fun line => !isBlankLine line).map
              (·.takeWhile isSpaceOrTab)).map (commonIndent ls ++ ·) := by
        rw [List.map_map, List.map_map]
        exact List.map_congr_left fun line _ => hstart line
      rw [hfilter, hmap, sharedStart_append _ hnonempty] at hindent
      exact List.append_right_eq_self.mp hindent.symm

/-! ## Blank lines at the ends -/

/-- Lines between empty ones, the first and the last of them not empty. -/
structure Inner (ls before inner after : List (List Char)) : Prop where
  eq : ls = before ++ (inner ++ after)
  before : ∀ line ∈ before, line = []
  after : ∀ line ∈ after, line = []
  head : ∃ line rest, inner = line :: rest ∧ line ≠ []
  last : ∃ rest line, inner = rest ++ [line] ∧ line ≠ []

theorem exists_first {ls : List (List Char)} (h : ∃ line ∈ ls, line ≠ []) :
    ∃ before line rest, ls = before ++ line :: rest ∧ (∀ e ∈ before, e = []) ∧ line ≠ [] := by
  induction ls with
  | nil => simp at h
  | cons first others ih =>
      by_cases hfirst : first = []
      · obtain ⟨line, hline, hne⟩ := h
        have hmem : line ∈ others :=
          (List.mem_cons.mp hline).resolve_left fun heq => hne (heq.trans hfirst)
        obtain ⟨before, line, rest, rfl, hbefore, hne⟩ := ih ⟨line, hmem, hne⟩
        refine ⟨first :: before, line, rest, rfl, ?_, hne⟩
        intro e he
        rcases List.mem_cons.mp he with rfl | he
        · exact hfirst
        · exact hbefore e he
      · exact ⟨[], first, others, rfl, by simp, hfirst⟩

theorem exists_inner {ls : List (List Char)} (h : ∃ line ∈ ls, line ≠ []) :
    ∃ before inner after, Inner ls before inner after := by
  obtain ⟨before, first, rest, rfl, hbefore, hfirst⟩ := exists_first h
  obtain ⟨after, last, front, hreverse, hafter, hlast⟩ :=
    exists_first ⟨first, List.mem_reverse.mpr (List.mem_cons_self ..), hfirst⟩
  have hsplit : first :: rest = (front.reverse ++ [last]) ++ after.reverse := by
    have hrev := congrArg List.reverse hreverse
    simpa using hrev
  refine ⟨before, front.reverse ++ [last], after.reverse, by rw [← hsplit], hbefore, ?_, ?_,
    ⟨front.reverse, last, rfl, hlast⟩⟩
  · exact fun line hline => hafter line (List.mem_reverse.mp hline)
  · cases hfront : front.reverse with
    | nil =>
        exact ⟨last, [], rfl, hlast⟩
    | cons line others =>
        rw [hfront] at hsplit
        obtain ⟨rfl, -⟩ := List.cons.inj hsplit
        exact ⟨first, others ++ [last], rfl, hfirst⟩

section

variable {ls before inner after : List (List Char)} (h : Inner ls before inner after)
  (hclean : ∀ line ∈ inner, '\n' ∉ line)

include h

theorem Inner.ne_nil : inner ≠ [] := by
  obtain ⟨line, rest, hinner, -⟩ := h.head
  simp [hinner]

include hclean

theorem dropWhile_newlines :
    (joinWith ['\n'] ls).dropWhile (· == '\n') = joinWith ['\n'] (inner ++ after) := by
  have hempty : ∀ before : List (List Char), (∀ line ∈ before, line = []) →
      (joinWith ['\n'] (before ++ (inner ++ after))).dropWhile (· == '\n') =
        (joinWith ['\n'] (inner ++ after)).dropWhile (· == '\n') := by
    intro before hbefore
    induction before with
    | nil => rfl
    | cons line rest ih =>
        obtain rfl := hbefore line (List.mem_cons_self ..)
        rw [List.cons_append, joinWith_cons _ _ (by simp [h.ne_nil]), List.nil_append,
          List.singleton_append, List.dropWhile_cons_of_pos (by simp)]
        exact ih fun l hl => hbefore l (List.mem_cons_of_mem _ hl)
  obtain ⟨first, others, hinner, hfirst⟩ := h.head
  obtain ⟨c, tail, htail⟩ := List.exists_cons_of_ne_nil hfirst
  have hc : c ≠ '\n' := fun heq => hclean first (by simp [hinner]) (by simp [htail, heq])
  have hhead : ∃ t, joinWith ['\n'] (inner ++ after) = c :: t := by
    rw [hinner, List.cons_append, htail]
    by_cases hrest : others ++ after = []
    · exact ⟨tail, by rw [hrest, joinWith_singleton]⟩
    · exact ⟨_, joinWith_cons _ _ hrest⟩
  obtain ⟨t, ht⟩ := hhead
  rw [h.eq, hempty before h.before, ht, List.dropWhile_cons_of_neg (by simpa using hc)]

theorem trimRight_newlines :
    trimRight (· == '\n') (joinWith ['\n'] (inner ++ after)) = joinWith ['\n'] inner := by
  have hempty : ∀ after : List (List Char), (∀ line ∈ after, line = []) →
      trimRight (· == '\n') (joinWith ['\n'] (inner ++ after.reverse)) =
        trimRight (· == '\n') (joinWith ['\n'] inner) := by
    intro after hafter
    induction after with
    | nil => simp
    | cons line rest ih =>
        obtain rfl := hafter line (List.mem_cons_self ..)
        rw [List.reverse_cons, ← List.append_assoc, joinWith_append _ (by simp [h.ne_nil]) (by simp),
          joinWith_singleton, List.append_nil, trimRight_append_of_pos _ (by simp)]
        exact ih fun l hl => hafter l (List.mem_cons_of_mem _ hl)
  have hafter := hempty after.reverse fun line hline => h.after line (List.mem_reverse.mp hline)
  rw [List.reverse_reverse] at hafter
  obtain ⟨front, last, hinner, hlast⟩ := h.last
  have hend := List.dropLast_append_getLast hlast
  have hc : (last.getLast hlast == '\n') = false := by
    rw [beq_eq_false_iff_ne]
    intro heq
    exact hclean last (by simp [hinner]) (heq ▸ List.getLast_mem hlast)
  have hjoin : ∃ t, joinWith ['\n'] inner = t ++ [last.getLast hlast] := by
    rw [hinner]
    by_cases hfront : front = []
    · exact ⟨last.dropLast, by rw [hfront, List.nil_append, joinWith_singleton, hend]⟩
    · refine ⟨joinWith ['\n'] front ++ (['\n'] ++ last.dropLast), ?_⟩
      rw [joinWith_append _ hfront (by simp), joinWith_singleton, List.append_assoc,
        List.append_assoc, hend]
  obtain ⟨t, ht⟩ := hjoin
  rw [hafter, ht]
  exact trimRight_append_cons_of_neg (p := (· == '\n')) t hc []

/-- Trimming line ends off a text drops its empty lines at both ends. -/
theorem splitAt_trim : splitAt '\n' (trimBy (· == '\n') (joinWith ['\n'] ls)) = inner := by
  rw [trimBy, trimLeft, dropWhile_newlines h hclean, trimRight_newlines h hclean,
    splitAt_joinWith h.ne_nil hclean]

end

/-! ## Bodies -/

/-- A script body: it does not end the element, and its white space is spaces, tabs
and line ends. -/
structure IsScriptBody (body : List Char) : Prop where
  no_close : ¬ ['<', '/'] <:+: body
  blanks : ∀ c ∈ body, isBlank c = true → c = ' ' ∨ c = '\t' ∨ c = '\n'

/-- A line at a depth, if it is not blank. -/
def place (depth : Nat) (line : List Char) : List Char :=
  if (printed line).isEmpty then [] else indent (depth + 1) ++ printed line

theorem scriptLines_eq (depth : Nat) (body : List Char) :
    State.scriptLines depth body =
      (splitAt '\n' (trimBy (· == '\n') (joinWith ['\n'] (dedent (splitAt '\n' body))))).map
        (place depth) := rfl

theorem printed_printed (line : List Char) : printed (printed line) = printed line :=
  trimRight_trimRight line

theorem isTame_of_mem_splitAt {body line : List Char}
    (hblanks : ∀ c ∈ body, isBlank c = true → c = ' ' ∨ c = '\t' ∨ c = '\n')
    (hline : line ∈ splitAt '\n' body) : IsTame line := by
  intro c hc
  have hmem : c ∈ body := (infix_of_mem_splitAt hline).subset hc
  cases hblank : isBlank c with
  | true =>
      rcases hblanks c hmem hblank with rfl | rfl | rfl
      · rfl
      · rfl
      · exact absurd hc (not_mem_of_mem_splitAt hline)
  | false =>
      rw [eq_comm, Bool.eq_false_iff]
      intro hspace
      rw [isBlank_of_isSpaceOrTab hspace] at hblank
      cases hblank

/-- The lines of a body with ink are laid out in: dedented, without empty lines at
the ends, and placed. -/
theorem exists_scriptLines {body : List Char}
    (hblanks : ∀ c ∈ body, isBlank c = true → c = ' ' ∨ c = '\t' ∨ c = '\n')
    (hink : ink body ≠ []) (depth : Nat) :
    ∃ before inner after, Inner (dedent (splitAt '\n' body)) before inner after ∧
      Dedented (dedent (splitAt '\n' body)) ∧
      State.scriptLines depth body = inner.map (place depth) := by
  have hdedented := dedented_dedent fun line hline => isTame_of_mem_splitAt hblanks hline
  have hsome : ∃ line ∈ dedent (splitAt '\n' body), line ≠ [] := by
    by_contra hnone
    have hempty : ∀ line ∈ dedent (splitAt '\n' body), line = [] := by simpa using hnone
    apply hink
    rw [← ink_splitAt_newline, ← ink_dedent, List.flatten_eq_nil_iff.mpr hempty, ink_nil]
  obtain ⟨before, inner, after, hinner⟩ := exists_inner hsome
  have hclean : ∀ line ∈ inner, '\n' ∉ line := by
    intro line hline hmem
    have htame := hdedented.tame line (by rw [hinner.eq]; simp [hline]) '\n' hmem
    exact absurd htame (by decide)
  exact ⟨before, inner, after, hinner, hdedented, by rw [scriptLines_eq, splitAt_trim hinner hclean]⟩

/-! ## Printing a body again -/

/-- The body that a printed script has. -/
def reindented (depth : Nat) (body : List Char) : List Char :=
  '\n' :: (joinWith ['\n'] (State.scriptLines depth body) ++ '\n' :: indent depth)

section

variable {before inner after : List (List Char)} {ls : List (List Char)} {depth : Nat}

theorem place_of_ink {line : List Char} (htame : IsTame line) (hline : isBlankLine line = false) :
    place depth line = indent (depth + 1) ++ printed line := by
  have hprinted := isBlankLine_printed htame hline
  rw [place, if_neg]
  intro hempty
  rw [List.isEmpty_iff.mp hempty] at hprinted
  cases hprinted

theorem clean_place (hinner : ∀ line ∈ inner, IsTame line) :
    ∀ line ∈ inner.map (place depth), '\n' ∉ line := by
  intro line hline hmem
  obtain ⟨source, hsource, rfl⟩ := List.mem_map.mp hline
  rw [place] at hmem
  split at hmem
  · cases hmem
  · rcases List.mem_append.mp hmem with hmem | hmem
    · exact absurd (indent_blank _ _ hmem) (by decide)
    · exact absurd (hinner source hsource _ ((printed_isPrefix source).subset hmem)) (by decide)

/-- Placed lines, read and dedented, are the lines that were placed. -/
theorem dedent_placed (h : Dedented inner) (hhead : ∃ line ∈ inner, isBlankLine line = false) :
    dedent ([] :: (inner.map (place depth) ++ [indent depth])) =
      [[]] ++ (inner.map printed ++ [[]]) := by
  have hblank : ∀ line ∈ inner, isBlankLine line = true → place depth line = [] := fun line hline hb => by
    rw [h.blank line hline hb]
    rfl
  have hmargin : ∀ line ∈ inner, isBlankLine line = false →
      isBlankLine (place depth line) = false := fun line hline hb => by
    rw [place_of_ink (h.tame line hline) hb, isBlankLine_append (indent_blank _)]
    exact isBlankLine_printed (h.tame line hline) hb
  have hlast : isBlankLine (indent depth) = true := List.all_eq_true.mpr (indent_blank depth)
  have hfilter : ([] :: (inner.map (place depth) ++ [indent depth])).filter
      (fun line => !isBlankLine line) =
        (inner.filter fun line => !isBlankLine line).map (place depth) := by
    have hnil : isBlankLine [] = true := rfl
    rw [List.filter_cons, if_neg (by simp [hnil]), List.filter_append, List.filter_cons,
      if_neg (by simp [hlast]), List.filter_nil, List.append_nil, List.filter_map]
    congr 1
    refine List.filter_congr fun line hline => ?_
    cases hb : isBlankLine line with
    | true => simp [hblank line hline hb, hnil]
    | false => simp [hmargin line hline hb]
  have hstarts : ((inner.filter fun line => !isBlankLine line).map (place depth)).map
      (·.takeWhile isSpaceOrTab) =
        ((inner.filter fun line => !isBlankLine line).map (·.takeWhile isSpaceOrTab)).map
          (indent (depth + 1) ++ ·) := by
    rw [List.map_map, List.map_map]
    refine List.map_congr_left fun line hline => ?_
    obtain ⟨hmem, hb⟩ := List.mem_filter.mp hline
    have hb : isBlankLine line = false := by simpa using hb
    have htame := h.tame line hmem
    change (place depth line).takeWhile isSpaceOrTab = _
    rw [place_of_ink htame hb, List.takeWhile_append_of_pos (indent_blank _),
      takeWhile_printed htame hb]
    rfl
  have hcommon : commonIndent ([] :: (inner.map (place depth) ++ [indent depth])) =
      indent (depth + 1) := by
    rw [commonIndent_eq, hfilter, hstarts, sharedStart_append, h.shared, List.append_nil]
    obtain ⟨line, hmem, hb⟩ := hhead
    exact List.ne_nil_of_mem (List.mem_map.mpr ⟨line, List.mem_filter.mpr ⟨hmem, by simp [hb]⟩, rfl⟩)
  rw [dedent, hcommon]
  simp only [List.map_cons, List.map_append, List.map_nil, hlast, if_true, List.map_map]
  have hnil : isBlankLine [] = true := rfl
  rw [if_pos hnil]
  refine congrArg (fun lines => [] :: (lines ++ [[]])) (List.map_congr_left fun line hline => ?_)
  change (if isBlankLine (place depth line) = true then []
    else (place depth line).drop (indent (depth + 1)).length) = printed line
  cases hb : isBlankLine line with
  | true =>
      rw [hblank line hline hb, if_pos hnil, h.blank line hline hb]
      rfl
  | false =>
      rw [hmargin line hline hb, place_of_ink (h.tame line hline) hb, List.drop_left]
      simp

/-- A printed body is printed as it stands. -/
theorem scriptLines_reindented {body : List Char}
    (hblanks : ∀ c ∈ body, isBlank c = true → c = ' ' ∨ c = '\t' ∨ c = '\n')
    (hink : ink body ≠ []) (depth : Nat) :
    State.scriptLines depth (reindented depth body) = State.scriptLines depth body := by
  obtain ⟨before, inner, after, hinner, hdedented, hlines⟩ := exists_scriptLines hblanks hink depth
  have hsub : ∀ line ∈ inner, line ∈ dedent (splitAt '\n' body) := fun line hline => by
    rw [hinner.eq]
    simp [hline]
  have hnotBlank : ∀ line ∈ inner, line ≠ [] → isBlankLine line = false := fun line hline hne => by
    rw [Bool.eq_false_iff]
    exact fun hb => hne (hdedented.blank line (hsub line hline) hb)
  have hfilter : (dedent (splitAt '\n' body)).filter (fun line => !isBlankLine line) =
      inner.filter fun line => !isBlankLine line := by
    have hnone : ∀ part : List (List Char), (∀ line ∈ part, line = []) →
        part.filter (fun line => !isBlankLine line) = [] := by
      intro part hpart
      rw [List.filter_eq_nil_iff]
      intro line hline
      rw [hpart line hline]
      simp [isBlankLine]
    rw [hinner.eq, List.filter_append, List.filter_append, hnone before hinner.before,
      hnone after hinner.after, List.nil_append, List.append_nil]
  have hdedent : Dedented inner :=
    ⟨fun line hline => hdedented.tame line (hsub line hline),
      fun line hline => hdedented.blank line (hsub line hline),
      by rw [← hfilter]; exact hdedented.shared⟩
  obtain ⟨first, others, hfirst, hfirstNe⟩ := hinner.head
  obtain ⟨front, last, hlast, hlastNe⟩ := hinner.last
  have hne : inner ≠ [] := by simp [hfirst]
  have hbody : reindented depth body =
      joinWith ['\n'] ([] :: (inner.map (place depth) ++ [indent depth])) := by
    rw [reindented, hlines, joinWith_cons _ _ (by simp),
      joinWith_append _ (by simpa using hne) (List.cons_ne_nil _ _), joinWith_singleton]
    rfl
  have hclean : ∀ line ∈ [] :: (inner.map (place depth) ++ [indent depth]), '\n' ∉ line := by
    intro line hline hmem
    simp only [List.mem_cons, List.mem_append, List.not_mem_nil, or_false] at hline
    rcases hline with rfl | hline | rfl
    · cases hmem
    · exact clean_place hdedent.tame line hline hmem
    · exact absurd (indent_blank depth _ hmem) (by decide)
  have hprinted : ∀ line ∈ inner, line ≠ [] → printed line ≠ [] := fun line hline hlineNe heq => by
    have hb := isBlankLine_printed (hdedent.tame line hline) (hnotBlank line hline hlineNe)
    rw [heq] at hb
    cases hb
  have hagain : Inner ([[]] ++ (inner.map printed ++ [[]])) [[]] (inner.map printed) [[]] := by
    refine ⟨rfl, by simp, by simp, ⟨printed first, others.map printed, by simp [hfirst], ?_⟩,
      ⟨front.map printed, printed last, by simp [hlast], ?_⟩⟩
    · exact hprinted first (by simp [hfirst]) hfirstNe
    · exact hprinted last (by simp [hlast]) hlastNe
  have hcleanPrinted : ∀ line ∈ inner.map printed, '\n' ∉ line := by
    intro line hline hmem
    obtain ⟨source, hsource, rfl⟩ := List.mem_map.mp hline
    exact absurd (hdedent.tame source hsource _ ((printed_isPrefix source).subset hmem)) (by decide)
  rw [hlines, scriptLines_eq, hbody, splitAt_joinWith (List.cons_ne_nil _ _) hclean,
    dedent_placed hdedent ⟨first, by simp [hfirst], hnotBlank first (by simp [hfirst]) hfirstNe⟩,
    splitAt_trim hagain hcleanPrinted, List.map_map]
  refine List.map_congr_left fun line _ => ?_
  change place depth (printed line) = place depth line
  rw [place, place, printed_printed]

end

/-! ## A printed body is a body -/

/-- An end tag does not begin across a character that is not part of its mark. -/
theorem infix_append_cons {x y : List Char} {c : Char} (hless : c ≠ '<') (hslash : c ≠ '/')
    (h : ['<', '/'] <:+: x ++ c :: y) : ['<', '/'] <:+: x ∨ ['<', '/'] <:+: y := by
  induction x with
  | nil =>
      rw [List.nil_append, List.infix_cons_iff] at h
      rcases h with hstart | hinfix
      · exact absurd (List.cons_prefix_cons.mp hstart).1.symm hless
      · exact .inr hinfix
  | cons d x ih =>
      rw [List.cons_append, List.infix_cons_iff] at h
      rcases h with hstart | hinfix
      · obtain ⟨rfl, hrest⟩ := List.cons_prefix_cons.mp hstart
        cases x with
        | nil => exact absurd (List.cons_prefix_cons.mp hrest).1.symm hslash
        | cons e x =>
            obtain ⟨rfl, -⟩ := List.cons_prefix_cons.mp hrest
            exact .inl ⟨[], x, rfl⟩
      · exact (ih hinfix).imp_left fun h => h.trans (List.suffix_cons d x).isInfix

theorem infix_of_infix_indent (depth : Nat) {part : List Char}
    (h : ['<', '/'] <:+: indent depth ++ part) : ['<', '/'] <:+: part := by
  rw [indent] at h
  generalize 2 * depth = n at h
  induction n with
  | zero => simpa using h
  | succ n ih =>
      rw [List.replicate_succ, List.cons_append] at h
      have hsplit := infix_append_cons (x := []) (by decide) (by decide) h
      exact ih (hsplit.resolve_left (by simp))

theorem exists_infix_of_infix_joinWith {ls : List (List Char)}
    (h : ['<', '/'] <:+: joinWith ['\n'] ls) : ∃ line ∈ ls, ['<', '/'] <:+: line := by
  induction ls with
  | nil => simp [joinWith] at h
  | cons line rest ih =>
      by_cases hrest : rest = []
      · rw [hrest, joinWith_singleton] at h
        exact ⟨line, List.mem_cons_self .., h⟩
      · rw [joinWith_cons _ _ hrest, List.singleton_append] at h
        rcases infix_append_cons (by decide) (by decide) h with h | h
        · exact ⟨line, List.mem_cons_self .., h⟩
        · obtain ⟨other, hmem, hother⟩ := ih h
          exact ⟨other, List.mem_cons_of_mem _ hmem, hother⟩

/-- A printed line is a part of the body behind the indentation. -/
theorem scriptLines_parts {body : List Char} (hbody : IsScriptBody body) (hink : ink body ≠ [])
    {depth : Nat} {line : List Char} (hline : line ∈ State.scriptLines depth body) :
    line = [] ∨ ∃ part, part <:+: body ∧ line = indent (depth + 1) ++ part := by
  obtain ⟨before, inner, after, hinner, -, hlines⟩ := exists_scriptLines hbody.blanks hink depth
  rw [hlines] at hline
  obtain ⟨dedented, hmem, rfl⟩ := List.mem_map.mp hline
  have hmem : dedented ∈ dedent (splitAt '\n' body) := by
    rw [hinner.eq]
    simp [hmem]
  obtain ⟨source, hsource, rfl⟩ := List.mem_map.mp hmem
  by_cases hblank : isBlankLine source = true
  · simp only [if_pos hblank]
    exact .inl rfl
  · simp only [if_neg hblank]
    rw [place]
    split
    · exact .inl rfl
    · refine .inr ⟨_, ?_, rfl⟩
      exact ((printed_isPrefix _).isInfix.trans (List.drop_suffix _ _).isInfix).trans
        (infix_of_mem_splitAt hsource)

theorem isScriptBody_reindented {body : List Char} (hbody : IsScriptBody body)
    (hink : ink body ≠ []) (depth : Nat) : IsScriptBody (reindented depth body) := by
  have hlines : ∀ line ∈ State.scriptLines depth body, ¬ ['<', '/'] <:+: line := by
    intro line hline hclose
    rcases scriptLines_parts hbody hink hline with rfl | ⟨part, hpart, rfl⟩
    · simp at hclose
    · exact hbody.no_close ((infix_of_infix_indent _ hclose).trans hpart)
  refine ⟨fun hclose => ?_, fun c hc hblank => ?_⟩
  · have hafter := (infix_append_cons (x := []) (by decide) (by decide) hclose).resolve_left (by simp)
    rcases infix_append_cons (by decide) (by decide) hafter with hjoin | hindent
    · obtain ⟨line, hline, hclose⟩ := exists_infix_of_infix_joinWith hjoin
      exact hlines line hline hclose
    · rw [← List.append_nil (indent depth)] at hindent
      have hnone := infix_of_infix_indent depth hindent
      simp at hnone
  · have hspace : ∀ n, c ∈ indent n → c = ' ' := fun n h => by
      rw [indent, List.mem_replicate] at h
      exact h.2
    have hjoin : ∀ ls : List (List Char), c ∈ joinWith ['\n'] ls → c = '\n' ∨ ∃ line ∈ ls, c ∈ line := by
      intro ls
      induction ls with
      | nil => simp [joinWith]
      | cons line rest ih =>
          intro h
          by_cases hrest : rest = []
          · rw [hrest, joinWith_singleton] at h
            exact .inr ⟨line, List.mem_cons_self .., h⟩
          · rw [joinWith_cons _ _ hrest] at h
            simp only [List.mem_append, List.mem_singleton] at h
            rcases h with h | h | h
            · exact .inr ⟨line, List.mem_cons_self .., h⟩
            · exact .inl h
            · exact (ih h).imp_right (Exists.imp fun l => And.imp_left (List.mem_cons_of_mem _))
    rw [reindented, List.mem_cons, List.mem_append, List.mem_cons] at hc
    rcases hc with rfl | hc | rfl | hc
    · exact .inr (.inr rfl)
    · rcases hjoin _ hc with rfl | ⟨line, hline, hc⟩
      · exact .inr (.inr rfl)
      · rcases scriptLines_parts hbody hink hline with rfl | ⟨part, hpart, rfl⟩
        · cases hc
        · rcases List.mem_append.mp hc with hc | hc
          · exact .inl (hspace _ hc)
          · exact hbody.blanks c (hpart.subset hc) hblank
    · exact .inr (.inr rfl)
    · exact .inl (hspace _ hc)

theorem ink_reindented (depth : Nat) (body : List Char) :
    ink (reindented depth body) = ink body := by
  have hindent : ink (indent depth) = [] := ink_indent depth
  rw [reindented, ink_cons, if_pos (by decide), ink_append, ink_cons, if_pos (by decide), hindent,
    List.append_nil, ink_joinWith ink_newline, ink_scriptLines]

end Folio.Markup
