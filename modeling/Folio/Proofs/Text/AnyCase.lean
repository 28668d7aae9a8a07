import Folio.Layout
import Folio.Proofs.Text.Finding
import Mathlib

/-!
# Endings and words in any case

`hasSuffix` compares the lower case of a text.  A few characters have a lower case
of more than one character, and that of a sigma depends on the word around it, so
three facts need an argument: a text with an ending has as many characters as the
ending, the ending is the lower case of what is written there, and a slash keeps
what comes before it from mattering.

A word is also found where some of its letters are capitals, or stand for them by the rules that
compare letters without regard to case (`exists_of_dropWordAnyCase`).  What was found is not
always the word again in lower case: two letters count as an `i` and have another lower case
(`IsOddI`).  For a word of the plain letters other than `s` and `k`, for which there are more
such letters, these two make the whole difference (`lower_eq_of_spells`,
`exists_foreign_of_oddI`).
-/

namespace Folio.Text

/-! ## Lengths of endings -/

/-- Only a dotted capital has more than one small character, the first an `i`. -/
theorem countP_lowerBetween_le (before : List Char) (c : Char) (after : List Char) :
    (lowerBetween before c after).countP (fun d => d ≠ 'i' && d ≠ Char.ofNat 775) ≤ 1 := by
  have hsingle : ∀ d : Char,
      [d].countP (fun d => d ≠ 'i' && d ≠ Char.ofNat 775) ≤ 1 := fun _ => List.countP_le_length
  unfold lowerBetween lowerChar
  split
  · split <;> exact hsingle _
  · split
    · exact hsingle _
    · split
      · decide
      · exact hsingle _

theorem countP_lowerAfter_le (before s : List Char) :
    (lowerAfter before s).countP (fun d => d ≠ 'i' && d ≠ Char.ofNat 775) ≤ s.length := by
  induction s generalizing before with
  | nil => simp [lowerAfter]
  | cons c rest ih =>
      have hfirst := countP_lowerBetween_le before c rest
      have hrest := ih (c :: before)
      rw [lowerAfter, List.countP_append, List.length_cons]
      omega

/-- A text is as long as any ending that it has, if no dotted letter is in that. -/
theorem length_le_of_hasSuffix {suffix : String} {s : List Char}
    (hdotless : suffix.toList.all fun d => d ≠ 'i' && d ≠ Char.ofNat 775)
    (hsuffix : hasSuffix suffix s) : suffix.toList.length ≤ s.length := by
  have hsub : suffix.toList <:+ lower s := List.isSuffixOf_iff_suffix.1 hsuffix
  calc suffix.toList.length
      = suffix.toList.countP (fun d => d ≠ 'i' && d ≠ Char.ofNat 775) := by
        rw [List.countP_eq_length.2]
        exact List.all_eq_true.1 hdotless
    _ ≤ (lower s).countP (fun d => d ≠ 'i' && d ≠ Char.ofNat 775) := hsub.sublist.countP_le
    _ ≤ s.length := countP_lowerAfter_le [] s

/-- A text has one ending of each length. -/
theorem eq_of_hasSuffix {a b : String} {s : List Char} (ha : hasSuffix a s) (hb : hasSuffix b s)
    (hlength : a.toList.length = b.toList.length) : a.toList = b.toList := by
  have ha' : a.toList <:+ lower s := List.isSuffixOf_iff_suffix.1 ha
  have hb' : b.toList <:+ lower s := List.isSuffixOf_iff_suffix.1 hb
  exact (List.suffix_of_suffix_length_le ha' hb' hlength.le).eq_of_length hlength

/-! ## What is written at an ending -/

/-- No word goes on across a slash. -/
theorem wordGoesOn_append_slash (side others : List Char) :
    wordGoesOn (side ++ '/' :: others) = wordGoesOn side := by
  have hslash : isWithinWord '/' = false := by decide +kernel
  have hcased : isCased '/' = false := by decide +kernel
  unfold wordGoesOn
  induction side with
  | nil => simp [hslash, hcased]
  | cons c rest ih =>
      cases hc : isWithinWord c with
      | true => simpa [hc] using ih
      | false => simp [hc]

theorem lowerAfter_append (before s t : List Char) :
    ∃ s', lowerAfter before (s ++ t) = s' ++ lowerAfter (s.reverse ++ before) t := by
  induction s generalizing before with
  | nil => exact ⟨[], rfl⟩
  | cons c rest ih =>
      obtain ⟨s', hs'⟩ := ih (c :: before)
      refine ⟨lowerBetween before c (rest ++ t) ++ s', ?_⟩
      rw [List.cons_append, lowerAfter, hs', List.append_assoc, List.reverse_cons,
        List.append_assoc]
      rfl

theorem lowerAfter_append_slash (before others s : List Char) :
    lowerAfter (before ++ '/' :: others) s = lowerAfter before s := by
  induction s generalizing before with
  | nil => rfl
  | cons c rest ih =>
      rw [lowerAfter, lowerAfter, ← List.cons_append, ih (c :: before)]
      unfold lowerBetween
      rw [wordGoesOn_append_slash]

/-- What follows a slash is made small by itself. -/
theorem lower_append_slash (front s : List Char) :
    ∃ front', lower (front ++ '/' :: s) = front' ++ '/' :: lower s := by
  obtain ⟨front', hfront'⟩ := lowerAfter_append [] front ('/' :: s)
  have hslash : ∀ before after, lowerBetween before '/' after = ['/'] := fun _ _ => rfl
  refine ⟨front', ?_⟩
  unfold lower
  rw [hfront', List.append_nil, lowerAfter, hslash, List.singleton_append]
  exact congrArg (front' ++ '/' :: ·) (lowerAfter_append_slash [] front.reverse s)

/-- The ending of a text is that of what follows a slash in it. -/
theorem hasSuffix_append_slash {suffix : String} {s : List Char} (front : List Char)
    (hsuffix : hasSuffix suffix s) : hasSuffix suffix (front ++ '/' :: s) := by
  obtain ⟨front', hlower⟩ := lower_append_slash front s
  have hsub : suffix.toList <:+ lower s := List.isSuffixOf_iff_suffix.1 hsuffix
  unfold hasSuffix
  rw [hlower, List.isSuffixOf_iff_suffix]
  exact (hsub.trans (List.suffix_cons '/' _)).trans (List.suffix_append front' _)

/-- An ending without a slash does not reach over one. -/
theorem hasSuffix_of_append_slash {suffix : String} {front s : List Char}
    (hslash : '/' ∉ suffix.toList) (hsuffix : hasSuffix suffix (front ++ '/' :: s)) :
    hasSuffix suffix s := by
  obtain ⟨front', hlower⟩ := lower_append_slash front s
  unfold hasSuffix at hsuffix ⊢
  rw [hlower, List.isSuffixOf_iff_suffix] at hsuffix
  rw [List.isSuffixOf_iff_suffix]
  rcases List.suffix_or_suffix_of_suffix hsuffix (List.suffix_append front' _) with h | h
  · refine (List.suffix_cons_iff.1 h).resolve_left fun h => hslash ?_
    rw [h]
    exact List.mem_cons_self ..
  · exact absurd (h.subset (List.mem_cons_self ..)) hslash

variable {word written s rest : List Char} {a c : Char}

/-! ## Words -/

/-- Whether one letter counts as another, given in lower case. -/
def CountsAs (a c : Char) : Prop :=
  a = c ∨ sameLetter a c = true

/-- What can be found as a word in any case. -/
def Spells (word written : List Char) : Prop :=
  List.Forall₂ CountsAs word written

theorem exists_of_dropWordAnyCase (h : dropWordAnyCase word s = some rest) :
    ∃ written, s = written ++ rest ∧ Spells word written := by
  induction word generalizing s with
  | nil => exact ⟨[], Option.some.inj h, List.Forall₂.nil⟩
  | cons a word ih =>
      cases s with
      | nil => cases h
      | cons c s =>
          rw [dropWordAnyCase] at h
          split at h
          · rename_i hletter
            obtain ⟨written, rfl, hwritten⟩ := ih h
            rw [Bool.or_eq_true, decide_eq_true_eq, Bool.and_eq_true] at hletter
            exact ⟨c :: written, rfl, List.Forall₂.cons (hletter.imp_right And.right) hwritten⟩
          · cases h

/-! ## Lower case of words -/

/-- A letter of the basic alphabet in lower case, but none of those that a letter beyond it
stands for by its lower case. -/
def IsPlainLetter (a : Char) : Prop :=
  97 ≤ a.toNat ∧ a.toNat ≤ 122 ∧ a ≠ 's' ∧ a ≠ 'k'

/-- The capital with a dot and the small letter without one, which count as an `i`. -/
def IsOddI (c : Char) : Prop :=
  c = '\u0130' ∨ c = '\u0131'

theorem toNat_lt_of_toLower (h : c.toLower.toNat < 128) : c.toNat < 128 := by
  unfold Char.toLower at h
  split at h
  · rename_i hc
    exact Nat.lt_of_le_of_lt (UInt32.le_iff_toNat_le.mp hc.2) (by decide)
  · exact h

/-- A letter that counts as a plain one has this as its lower case or is an odd `i`. -/
theorem CountsAs.toLower_eq (h : CountsAs a c) (ha : IsPlainLetter a) :
    c.toLower = a ∨ IsOddI c := by
  obtain ⟨hlow, -, hs, hk⟩ := ha
  rcases h with rfl | h
  · refine Or.inl (dif_neg fun hc => ?_)
    have hle : a.toNat ≤ 90 := UInt32.le_iff_toNat_le.mp hc.2
    omega
  · simp only [sameLetter, Bool.or_eq_true, Bool.and_eq_true, beq_iff_eq] at h
    rcases h with ((h | ⟨-, h | h⟩) | ⟨h, -⟩) | ⟨h, -⟩
    · exact Or.inl h
    · exact Or.inr (Or.inl (Char.toNat_inj.mp h))
    · exact Or.inr (Or.inr (Char.toNat_inj.mp h))
    · exact absurd h hs
    · exact absurd h hk

/-- A word that was found without an odd `i` is the word again in lower case. -/
theorem lower_eq_of_spells (h : Spells word written) (hword : ∀ a ∈ word, IsPlainLetter a)
    (hodd : ∀ c ∈ written, ¬ IsOddI c) : lower written = word := by
  suffices hafter : ∀ before, lowerAfter before written = word from hafter []
  induction h with
  | nil => exact fun _ => rfl
  | @cons a c word written hletter _ ih =>
      intro before
      obtain ⟨ha, hword⟩ := List.forall_mem_cons.mp hword
      obtain ⟨hc, hodd⟩ := List.forall_mem_cons.mp hodd
      have hlower : c.toLower = a := (hletter.toLower_eq ha).resolve_right hc
      have hbasic : c.toNat < 128 := by
        refine toNat_lt_of_toLower ?_
        rw [hlower]
        exact Nat.lt_of_le_of_lt ha.2.1 (by decide)
      have hsigma : (c.toNat == 0x3A3) = false := beq_eq_false_iff_ne.mpr (by omega)
      rw [lowerAfter, lowerBetween, hsigma, if_neg Bool.false_ne_true, lowerChar, if_pos hbasic,
        hlower, ih hword hodd]
      rfl

/-- The lower case of a letter, sigma apart, is in the lower case of the text. -/
theorem lowerChar_subset (hc : c ∈ s) (hsigma : c.toNat ≠ 0x3A3) : lowerChar c ⊆ lower s := by
  suffices hafter : ∀ before, lowerChar c ⊆ lowerAfter before s from hafter []
  induction s with
  | nil => cases hc
  | cons d s ih =>
      intro before
      rw [lowerAfter]
      rcases List.mem_cons.mp hc with rfl | hc
      · rw [lowerBetween, beq_eq_false_iff_ne.mpr hsigma, if_neg Bool.false_ne_true]
        exact List.subset_append_left _ _
      · exact List.Subset.trans (ih hc (d :: before)) (List.subset_append_right _ _)

/-- An odd `i` leaves a letter beyond the basic alphabet. -/
theorem exists_foreign_of_oddI (hc : c ∈ written) (hodd : IsOddI c) :
    ∃ d ∈ lower written, 128 ≤ d.toNat := by
  rcases hodd with rfl | rfl
  · have hlower : lowerChar '\u0130' = ['i', '\u0307'] := by decide +kernel
    refine ⟨'\u0307', lowerChar_subset hc (by decide) ?_, by decide⟩
    rw [hlower]
    decide
  · have hlower : lowerChar '\u0131' = ['\u0131'] := by decide +kernel
    refine ⟨'\u0131', lowerChar_subset hc (by decide) ?_, by decide⟩
    rw [hlower]
    decide

end Folio.Text
