import Folio.Proofs.Text.Cutting
import Folio.Text.Occurrence

/-!
# Searching a text in parts

A search goes through a text from the left.  Where a pattern matches nowhere in a part,
the search goes on after the part (`occurrencesFrom_append`), and where it matches it
goes on after what the match has read (`occurrencesFrom_match`).

Lines are found likewise: `linesWithEnds_flatMap` gives the lines that a text was put
together from.
-/

namespace Folio.Text

variable {α : Type} {s t : List Char}

/-! ## Small patterns -/

theorem dropWord_append (word t : List Char) : dropWord word (word ++ t) = some t := by
  induction word with
  | nil => rfl
  | cons c word ih => rw [List.cons_append, dropWord, if_pos rfl, ih]

theorem eq_append_of_dropWord {word rest : List Char} (h : dropWord word s = some rest) :
    s = word ++ rest := by
  induction word generalizing s with
  | nil => exact Option.some.inj h
  | cons a word ih =>
      cases s with
      | nil => cases h
      | cons c s =>
          rw [dropWord] at h
          split at h
          · rename_i hac
            rw [hac, List.cons_append, ← ih h]
          · cases h

theorem suffix_of_dropWord {word rest : List Char} (h : dropWord word s = some rest) :
    rest <:+ s :=
  ⟨word, (eq_append_of_dropWord h).symm⟩

theorem suffix_of_dropWordAnyCase {word rest : List Char}
    (h : dropWordAnyCase word s = some rest) : rest <:+ s := by
  induction word generalizing s with
  | nil => exact Option.some.inj h ▸ List.suffix_rfl
  | cons a word ih =>
      cases s with
      | nil => cases h
      | cons c s =>
          rw [dropWordAnyCase] at h
          split at h
          · exact (ih h).trans (List.suffix_cons c s)
          · cases h

theorem dropWord_cons_ne {a c : Char} (hne : a ≠ c) (word s : List Char) :
    dropWord (a :: word) (c :: s) = none :=
  if_neg hne

theorem dropBlanks_append (hs : ∀ c ∈ s, isBlank c = true) (t : List Char) :
    dropBlanks (s ++ t) = dropBlanks t :=
  List.dropWhile_append_of_pos hs

/-! ## Occurrences -/

/-- A pattern that matches nowhere in a part of a text which is followed by `t`. -/
def Quiet (pattern : List Char → Option α) (s t : List Char) : Prop :=
  ∀ c v, c :: v <:+ s → pattern (c :: v ++ t) = none

section

variable {pattern : List Char → Option α}

theorem quiet_nil (pattern : List Char → Option α) (t : List Char) : Quiet pattern [] t := by
  intro c v h
  cases List.suffix_nil.1 h

theorem quiet_cons {c : Char} :
    Quiet pattern (c :: s) t ↔ pattern (c :: s ++ t) = none ∧ Quiet pattern s t := by
  constructor
  · intro h
    exact ⟨h c s List.suffix_rfl, fun d v hv => h d v (hv.trans (List.suffix_cons c s))⟩
  · rintro ⟨hfirst, hrest⟩ d v hv
    rcases List.suffix_cons_iff.1 hv with heq | hv
    · rw [heq, hfirst]
    · exact hrest d v hv

theorem Quiet.append {s' : List Char} (h : Quiet pattern s (s' ++ t)) (h' : Quiet pattern s' t) :
    Quiet pattern (s ++ s') t := by
  induction s with
  | nil => exact h'
  | cons c s ih =>
      rw [quiet_cons] at h
      rw [List.cons_append, quiet_cons]
      refine ⟨?_, ih h.2⟩
      rw [← List.cons_append, List.append_assoc]
      exact h.1

end

section

variable {pattern : Pattern α}

/-- A part in which a pattern never matches is passed over. -/
theorem occurrencesFrom_append (h : Quiet pattern s t) (offset : Nat) :
    occurrencesFrom pattern offset 0 (s ++ t) =
      occurrencesFrom pattern (offset + s.length) 0 t := by
  induction s generalizing offset with
  | nil => rfl
  | cons c s ih =>
      obtain ⟨hfirst, hrest⟩ := quiet_cons.1 h
      rw [List.cons_append] at hfirst ⊢
      rw [occurrencesFrom, hfirst]
      dsimp only
      rw [ih hrest, List.length_cons, Nat.add_assoc, Nat.add_comm 1]

theorem occurrencesFrom_skip (offset : Nat) (s t : List Char) :
    occurrencesFrom pattern offset s.length (s ++ t) =
      occurrencesFrom pattern (offset + s.length) 0 t := by
  induction s generalizing offset with
  | nil => rfl
  | cons c s ih =>
      rw [List.cons_append, List.length_cons, occurrencesFrom, ih, Nat.add_assoc, Nat.add_comm 1]

/-- After a match, the search goes on behind what it has read. -/
theorem occurrencesFrom_match {value : α} (hne : s ≠ [])
    (hmatch : pattern (s ++ t) = some (value, t)) (offset : Nat) :
    occurrencesFrom pattern offset 0 (s ++ t) =
      ⟨offset, value⟩ :: occurrencesFrom pattern (offset + s.length) 0 t := by
  obtain ⟨c, s, rfl⟩ := List.exists_cons_of_ne_nil hne
  have hlength : (s ++ t).length - t.length = s.length := by
    rw [List.length_append, Nat.add_sub_cancel]
  rw [List.cons_append] at hmatch ⊢
  rw [occurrencesFrom, hmatch]
  dsimp only
  rw [hlength, occurrencesFrom_skip, List.length_cons, Nat.add_assoc, Nat.add_comm 1]

end

/-! ## First matches -/

section

variable {pattern : Option Char → Pattern α}

theorem firstMatch_cons {c : Char} {value : α} {rest : List Char}
    (hmatch : pattern none (c :: s) = some (value, rest)) :
    firstMatch pattern (c :: s) = some ⟨0, value⟩ := by
  unfold firstMatch firstMatchAfter
  rw [hmatch]

theorem firstMatchAfter_eq_none (h : ∀ before c v, c :: v <:+ s → pattern before (c :: v) = none)
    (offset : Nat) (before : Option Char) : firstMatchAfter pattern offset before s = none := by
  induction s generalizing offset before with
  | nil => rfl
  | cons c s ih =>
      unfold firstMatchAfter
      rw [h before c s List.suffix_rfl]
      exact ih (fun before d v hv => h before d v (hv.trans (List.suffix_cons c s))) _ _

theorem firstMatch_eq_none (h : ∀ before c v, c :: v <:+ s → pattern before (c :: v) = none) :
    firstMatch pattern s = none :=
  firstMatchAfter_eq_none h 0 none

/-- A match stands where it says. -/
theorem exists_of_firstMatchAfter {offset : Nat} {before : Option Char} {found : Located α}
    (h : firstMatchAfter pattern offset before s = some found) :
    ∃ before' rest, offset ≤ found.offset ∧
      pattern before' (s.drop (found.offset - offset)) = some (found.value, rest) := by
  induction s generalizing offset before with
  | nil => cases h
  | cons c s ih =>
      unfold firstMatchAfter at h
      split at h
      · rename_i value rest hmatch
        cases h
        exact ⟨before, rest, Nat.le_refl _, by rw [Nat.sub_self]; exact hmatch⟩
      · obtain ⟨before', rest, hle, hmatch⟩ := ih h
        refine ⟨before', rest, by omega, ?_⟩
        obtain ⟨k, hk⟩ := Nat.exists_eq_add_of_le hle
        have hdrop : found.offset - offset = found.offset - (offset + 1) + 1 := by omega
        rw [hdrop, List.drop_succ_cons]
        exact hmatch

theorem exists_of_firstMatch {found : Located α} (h : firstMatch pattern s = some found) :
    ∃ before rest, pattern before (s.drop found.offset) = some (found.value, rest) := by
  obtain ⟨before, rest, -, hmatch⟩ := exists_of_firstMatchAfter h
  exact ⟨before, rest, hmatch⟩

end

/-! ## Lines -/

theorem linesWithEnds_cons {c : Char} (hc : isLineBoundary c = false) (s : List Char) :
    linesWithEnds (c :: s) = consLine c (linesWithEnds s) := by
  have hreturn : c ≠ '\r' := fun h => absurd hc (by rw [h]; decide)
  rw [linesWithEnds, if_neg (by simp [hc])]
  exact fun _ h _ => hreturn h

theorem linesWithEnds_append (hs : ∀ c ∈ s, isLineBoundary c = false) (t : List Char) :
    linesWithEnds (s ++ '\n' :: t) = (s ++ ['\n']) :: linesWithEnds t := by
  induction s with
  | nil => rfl
  | cons c s ih =>
      obtain ⟨hc, hrest⟩ := List.forall_mem_cons.1 hs
      rw [List.cons_append, linesWithEnds_cons hc, ih hrest]
      rfl

theorem linesWithEnds_of_not (hs : ∀ c ∈ s, isLineBoundary c = false) (hne : s ≠ []) :
    linesWithEnds s = [s] := by
  induction s with
  | nil => exact absurd rfl hne
  | cons c s ih =>
      obtain ⟨hc, hrest⟩ := List.forall_mem_cons.1 hs
      rw [linesWithEnds_cons hc]
      by_cases hs : s = []
      · subst hs
        rfl
      · rw [ih hrest hs]
        rfl

theorem withoutEnd_append (hs : ∀ c ∈ s, isLineBoundary c = false) :
    withoutEnd (s ++ ['\n']) = s := by
  have hreturn : (s ++ ['\n']).reverse.take 2 ≠ ['\n', '\r'] := by
    intro h
    have htail : s.reverse.take 1 = ['\r'] := by simpa using h
    have hmem : '\r' ∈ s.reverse := List.mem_of_mem_take (by rw [htail]; simp)
    exact absurd (hs '\r' (List.mem_reverse.1 hmem)) (by decide)
  unfold withoutEnd
  rw [if_neg hreturn, List.getLast?_concat]
  exact List.dropLast_concat

theorem withoutEnd_of_not (hs : ∀ c ∈ s, isLineBoundary c = false) : withoutEnd s = s := by
  have hreturn : s.reverse.take 2 ≠ ['\n', '\r'] := by
    intro h
    have hmem : '\n' ∈ s.reverse := List.mem_of_mem_take (by rw [h]; simp)
    exact absurd (hs '\n' (List.mem_reverse.1 hmem)) (by decide)
  unfold withoutEnd
  rw [if_neg hreturn]
  split
  · rename_i c hlast
    rw [if_neg (by simp [hs c (List.mem_of_getLast? hlast)])]
  · rfl

/-- Lines that are not empty are found again when they are joined. -/
theorem lines_joinWith {ls : List (List Char)} (hne : ∀ l ∈ ls, l ≠ [])
    (hls : ∀ l ∈ ls, ∀ c ∈ l, isLineBoundary c = false) :
    lines (joinWith ['\n'] ls) = ls := by
  induction ls with
  | nil => rfl
  | cons l ls ih =>
      obtain ⟨hfirst, hrest⟩ := List.forall_mem_cons.1 hls
      obtain ⟨hl, hothers⟩ := List.forall_mem_cons.1 hne
      by_cases hnone : ls = []
      · subst hnone
        rw [joinWith_singleton, lines, linesWithEnds_of_not hfirst hl, List.map_singleton,
          withoutEnd_of_not hfirst]
      · rw [joinWith_cons _ _ hnone, List.singleton_append, lines, linesWithEnds_append hfirst,
          List.map_cons, withoutEnd_append hfirst]
        exact congrArg (l :: ·) (ih hothers hrest)

/-- The lines of a text that was put together from lines. -/
theorem linesWithEnds_flatMap {ls : List (List Char)}
    (hls : ∀ l ∈ ls, ∀ c ∈ l, isLineBoundary c = false) (t : List Char) :
    linesWithEnds (ls.flatMap (· ++ ['\n']) ++ t) = ls.map (· ++ ['\n']) ++ linesWithEnds t := by
  induction ls with
  | nil => rfl
  | cons l ls ih =>
      obtain ⟨hl, hrest⟩ := List.forall_mem_cons.1 hls
      rw [List.flatMap_cons, List.append_assoc, List.append_assoc, List.singleton_append,
        linesWithEnds_append hl, ih hrest]
      rfl

end Folio.Text
