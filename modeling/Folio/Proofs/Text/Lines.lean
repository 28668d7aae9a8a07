import Folio.Proofs.Text.Cutting
import Folio.Text.Occurrence

/-!
# Values and the lines they are on

Trimming, unquoting and cutting at commas give parts of a text, so a value that is found in a
line is a part of this line (`infix_unquote`, `infix_of_mem_commaValues`), without white space
at its ends (`trim_unquote`).

Lines are cut at every character that ends a line anywhere, but they are counted by line feeds
alone.  A line that was cut has a line feed at most at its end, so it is on one counted line
(`newline_not_mem_dropLast`, `exists_line_of_append`).
-/

namespace Folio.Text

variable {p : Char → Bool} {s t : List Char}

/-! ## Values -/

theorem prefix_trimRight (p : Char → Bool) (s : List Char) : trimRight p s <+: s := by
  rw [trimRight, ← List.reverse_suffix, List.reverse_reverse]
  exact List.dropWhile_suffix p

theorem infix_trim (s : List Char) : trim s <:+: s :=
  (prefix_trimRight isBlank _).isInfix.trans (List.dropWhile_suffix isBlank).isInfix

theorem trim_trim (s : List Char) : trim (trim s) = trim s :=
  trimBy_trimBy s

theorem infix_unquote (s : List Char) : unquote s <:+: s := by
  unfold unquote
  dsimp only
  split
  · rename_i q body hvalue
    split
    · have hbody : body <:+: trim s := hvalue ▸ (List.suffix_cons q body).isInfix
      exact (infix_trim _).trans ((List.dropLast_prefix body).isInfix.trans
        (hbody.trans (infix_trim s)))
    · exact infix_trim s
  · exact infix_trim s

theorem trim_unquote (s : List Char) : trim (unquote s) = unquote s := by
  unfold unquote
  dsimp only
  split
  · split
    · exact trim_trim _
    · exact trim_trim s
  · exact trim_trim s

/-- A value of a list is a part of the list, trimmed and not empty. -/
theorem of_mem_commaValues {value : List Char} (h : value ∈ commaValues s) :
    value <:+: s ∧ trim value = value ∧ value ≠ [] := by
  obtain ⟨hmem, hne⟩ := List.mem_filter.mp h
  obtain ⟨piece, hpiece, rfl⟩ := List.mem_map.mp hmem
  have hpiece : piece ∈ splitAt ',' s := hpiece
  exact ⟨(infix_unquote piece).trans (infix_of_mem_splitAt hpiece), trim_unquote piece,
    by simpa using hne⟩

/-! ## Lines as they are cut -/

theorem flatten_consLine (c : Char) (ls : List (List Char)) :
    (consLine c ls).flatten = c :: ls.flatten := by
  cases ls <;> rfl

/-- No character is lost where lines are cut. -/
theorem flatten_linesWithEnds (s : List Char) : (linesWithEnds s).flatten = s := by
  fun_induction linesWithEnds s with
  | case1 => rfl
  | case2 rest ih => rw [List.flatten_cons, ih]; rfl
  | case3 c rest _ hc ih => rw [List.flatten_cons, ih]; rfl
  | case4 c rest _ hc ih => rw [flatten_consLine, ih]

/-- A line that was cut goes on after a line feed at no place. -/
theorem newline_not_mem_dropLast {line : List Char} (h : line ∈ linesWithEnds s) :
    '\n' ∉ line.dropLast := by
  induction s using linesWithEnds.induct generalizing line with
  | case1 => cases h
  | case2 rest ih =>
      rw [linesWithEnds] at h
      rcases List.mem_cons.mp h with rfl | h
      · decide
      · exact ih h
  | case3 c rest hreturn hc ih =>
      rw [linesWithEnds, if_pos hc] at h
      · rcases List.mem_cons.mp h with rfl | h
        · exact List.not_mem_nil
        · exact ih h
      · exact hreturn
  | case4 c rest hreturn hc ih =>
      rw [linesWithEnds, if_neg hc] at h
      · have hfeed : '\n' ≠ c := by
          rintro rfl
          exact hc (by decide)
        cases hrest : linesWithEnds rest with
        | nil =>
            rw [hrest, consLine, List.mem_singleton] at h
            subst h
            exact List.not_mem_nil
        | cons first others =>
            rw [hrest] at h ih
            rcases List.mem_cons.mp h with rfl | h
            · cases first with
              | nil => exact List.not_mem_nil
              | cons d first =>
                  rw [List.dropLast_cons_cons, List.mem_cons, not_or]
                  exact ⟨hfeed, ih List.mem_cons_self⟩
            · exact ih (List.mem_cons_of_mem _ h)
      · exact hreturn

/-- Without what ends it, a line that was cut has no line feed. -/
theorem newline_not_mem_content {line : List Char} (h : line ∈ linesWithEnds s) :
    '\n' ∉ trimRight (fun c => c == '\r' || c == '\n') line := by
  rcases List.eq_nil_or_concat line with rfl | ⟨front, last, rfl⟩
  · exact List.not_mem_nil
  · have hfront := newline_not_mem_dropLast h
    rw [List.concat_eq_append] at *
    rw [List.dropLast_concat] at hfront
    by_cases hlast : last = '\n'
    · subst hlast
      rw [trimRight_append_of_pos _ (by decide)]
      exact fun hmem => hfront ((prefix_trimRight _ front).subset hmem)
    · intro hmem
      rcases List.mem_append.mp ((prefix_trimRight _ _).subset hmem) with hmem | hmem
      · exact hfront hmem
      · exact hlast (List.mem_singleton.mp hmem).symm

/-! ## Lines as they are counted -/

theorem lineOf_append (before t : List Char) :
    lineOf (before ++ t) before.length = before.count '\n' + 1 := by
  rw [lineOf, List.take_left]

theorem lineOf_mono (s : List Char) {place place' : Nat} (h : place ≤ place') :
    lineOf s place ≤ lineOf s place' :=
  Nat.succ_le_succ ((List.take_sublist_take_left h).count_le '\n')

theorem splitAt_cons_of_ne {mark c : Char} (hc : c ≠ mark) {first : List Char}
    {rest : List (List Char)} (h : splitAt mark s = first :: rest) :
    splitAt mark (c :: s) = (c :: first) :: rest := by
  rw [splitAt] at h ⊢
  rw [splitBy, if_neg (by simpa using hc), h]

theorem splitAt_append_of_not_mem {mark : Char} (hs : mark ∉ s) {first : List Char}
    {rest : List (List Char)} (h : splitAt mark t = first :: rest) :
    splitAt mark (s ++ t) = (s ++ first) :: rest := by
  induction s with
  | nil => exact h
  | cons c s ih =>
      rw [List.mem_cons, not_or] at hs
      exact splitAt_cons_of_ne (Ne.symm hs.1) (ih hs.2)

/-- Text without a line feed is on the line that the line feeds before it give. -/
theorem exists_line_of_append (before : List Char) {content : List Char} (h : '\n' ∉ content)
    (after : List Char) :
    ∃ line, (splitAt '\n' (before ++ (content ++ after)))[before.count '\n']? = some line ∧
      content <:+: line := by
  induction before with
  | nil =>
      obtain ⟨first, rest, hafter⟩ :=
        List.exists_cons_of_ne_nil (splitBy_ne_nil (p := (· == '\n')) after)
      refine ⟨content ++ first, ?_, (List.prefix_append content first).isInfix⟩
      rw [List.nil_append, splitAt_append_of_not_mem h hafter]
      rfl
  | cons c before ih =>
      obtain ⟨line, hline, hinfix⟩ := ih
      by_cases hc : c = '\n'
      · subst hc
        have hsplit : splitAt '\n' ('\n' :: before ++ (content ++ after)) =
            [] :: splitAt '\n' (before ++ (content ++ after)) := rfl
        refine ⟨line, ?_, hinfix⟩
        rw [hsplit, List.count_cons_self, List.getElem?_cons_succ]
        exact hline
      · obtain ⟨first, rest, hrest⟩ := List.exists_cons_of_ne_nil
          (splitBy_ne_nil (p := (· == '\n')) (before ++ (content ++ after)))
        have hsplit : splitAt '\n' (before ++ (content ++ after)) = first :: rest := hrest
        rw [List.cons_append, splitAt_cons_of_ne hc hsplit, List.count_cons_of_ne hc]
        rw [hsplit] at hline
        cases hcount : before.count '\n' with
        | zero =>
            rw [hcount] at hline
            obtain rfl : first = line := Option.some.inj hline
            exact ⟨c :: first, rfl, hinfix.trans (List.suffix_cons c first).isInfix⟩
        | succ n =>
            rw [hcount] at hline
            exact ⟨line, hline, hinfix⟩

end Folio.Text
