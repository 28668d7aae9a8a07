import Folio.Text.Blank
import Mathlib.Data.List.TakeWhile

/-!
# Cutting texts and putting them together

Laws of `splitBy`, `wordsBy` and `joinWith` on texts that are put together from
others: a cut at a mark separates, so that what stands before it and what follows
it are cut on their own.
-/

namespace Folio.Text

variable {p : Char → Bool}

/-! ## Pieces -/

theorem splitBy_ne_nil (s : List Char) : splitBy p s ≠ [] := by
  fun_cases splitBy p s <;> simp_all

theorem splitBy_append_cons (s : List Char) {c : Char} (hc : p c = true) (t : List Char) :
    splitBy p (s ++ c :: t) = splitBy p s ++ splitBy p t := by
  induction s with
  | nil => simp [splitBy, hc]
  | cons d s ih =>
      by_cases hd : p d = true
      · simp [splitBy, hd, ih]
      · obtain ⟨piece, pieces, hpieces⟩ := List.exists_cons_of_ne_nil (splitBy_ne_nil (p := p) s)
        simp [splitBy, hd, ih, hpieces]

theorem splitBy_of_not {s : List Char} (hs : ∀ c ∈ s, p c = false) : splitBy p s = [s] := by
  induction s with
  | nil => rfl
  | cons c s ih =>
      rw [splitBy, hs c (List.mem_cons_self ..), ih fun d hd => hs d (List.mem_cons_of_mem _ hd)]
      rfl

/-! ## Words -/

theorem wordsBy_append_cons (s : List Char) {c : Char} (hc : p c = true) (t : List Char) :
    wordsBy p (s ++ c :: t) = wordsBy p s ++ wordsBy p t := by
  rw [wordsBy, splitBy_append_cons s hc, List.filter_append]
  rfl

theorem wordsBy_word {w : List Char} (hne : w ≠ []) (hw : ∀ c ∈ w, p c = false) :
    wordsBy p w = [w] := by
  rw [wordsBy, splitBy_of_not hw]
  simp [hne]

theorem wordsBy_blank {b : List Char} (hb : ∀ c ∈ b, p c = true) : wordsBy p b = [] := by
  induction b with
  | nil => rfl
  | cons c b ih =>
      have hcons := wordsBy_append_cons [] (hb c (List.mem_cons_self ..)) b
      rw [List.nil_append] at hcons
      rw [hcons, ih fun d hd => hb d (List.mem_cons_of_mem _ hd)]
      rfl

theorem wordsBy_ne_nil {s : List Char} {c : Char} (hmem : c ∈ s) (hc : p c = false) :
    wordsBy p s ≠ [] := by
  induction s with
  | nil => cases hmem
  | cons d s ih =>
      cases hd : p d with
      | true =>
          have hcons := wordsBy_append_cons [] hd s
          rw [List.nil_append] at hcons
          rw [hcons]
          rcases List.mem_cons.mp hmem with rfl | hmem
          · rw [hd] at hc
            cases hc
          · simpa [wordsBy, splitBy] using ih hmem
      | false =>
          obtain ⟨piece, pieces, hpieces⟩ := List.exists_cons_of_ne_nil (splitBy_ne_nil (p := p) s)
          simp [wordsBy, splitBy, hd, hpieces]

/-- A word found by cutting has characters, and none at which it would be cut. -/
theorem of_mem_wordsBy {s word : List Char} (h : word ∈ wordsBy p s) :
    word ≠ [] ∧ ∀ c ∈ word, p c = false := by
  have hpiece : ∀ piece ∈ splitBy p s, ∀ c ∈ piece, p c = false := by
    clear h
    induction s with
    | nil => simp [splitBy]
    | cons d s ih =>
        intro piece hpiece c hc
        by_cases hd : p d = true
        · rw [splitBy, if_pos hd] at hpiece
          rcases List.mem_cons.mp hpiece with rfl | hpiece
          · cases hc
          · exact ih piece hpiece c hc
        · obtain ⟨first, others, hsplit⟩ := List.exists_cons_of_ne_nil (splitBy_ne_nil (p := p) s)
          rw [splitBy, if_neg hd, hsplit] at hpiece
          rw [hsplit] at ih
          rcases List.mem_cons.mp hpiece with rfl | hpiece
          · rcases List.mem_cons.mp hc with rfl | hc
            · simpa using hd
            · exact ih first List.mem_cons_self c hc
          · exact ih piece (List.mem_cons_of_mem _ hpiece) c hc
  obtain ⟨hmem, hne⟩ := List.mem_filter.mp h
  exact ⟨by simpa using hne, hpiece word hmem⟩

/-! ## Joining -/

theorem joinWith_cons (mark first : List Char) {rest : List (List Char)} (hne : rest ≠ []) :
    joinWith mark (first :: rest) = first ++ (mark ++ joinWith mark rest) := by
  obtain ⟨second, rest, rfl⟩ := List.exists_cons_of_ne_nil hne
  simp [joinWith]

@[simp] theorem joinWith_singleton (mark piece : List Char) : joinWith mark [piece] = piece := by
  simp [joinWith]

theorem joinWith_append (mark : List Char) {xs ys : List (List Char)} (hxs : xs ≠ [])
    (hys : ys ≠ []) : joinWith mark (xs ++ ys) = joinWith mark xs ++ (mark ++ joinWith mark ys) := by
  induction xs with
  | nil => exact absurd rfl hxs
  | cons first rest ih =>
      by_cases hrest : rest = []
      · subst hrest
        rw [List.singleton_append, joinWith_cons mark first hys, joinWith_singleton]
      · rw [List.cons_append, joinWith_cons mark first (by simp [hrest]), ih hrest,
          joinWith_cons mark first hrest]
        simp only [List.append_assoc]

/-- Pieces between marks at which words end keep their words. -/
theorem wordsBy_joinWith {mark : Char} (hmark : p mark = true)
    (pieces : List (List Char)) :
    wordsBy p (joinWith [mark] pieces) = pieces.flatMap (wordsBy p) := by
  induction pieces with
  | nil => rfl
  | cons first rest ih =>
      by_cases hrest : rest = []
      · simp [hrest]
      · rw [joinWith_cons _ _ hrest, List.singleton_append, wordsBy_append_cons _ hmark, ih,
          List.flatMap_cons]

/-- Pieces in which the mark does not occur are found again. -/
theorem splitAt_joinWith {mark : Char} {pieces : List (List Char)} (hne : pieces ≠ [])
    (hpieces : ∀ piece ∈ pieces, mark ∉ piece) : splitAt mark (joinWith [mark] pieces) = pieces := by
  have hclean : ∀ piece ∈ pieces, splitAt mark piece = [piece] := fun piece hpiece =>
    splitBy_of_not fun c hc => beq_eq_false_iff_ne.mpr fun heq => hpieces piece hpiece (heq ▸ hc)
  induction pieces with
  | nil => exact absurd rfl hne
  | cons first rest ih =>
      by_cases hrest : rest = []
      · subst hrest
        rw [joinWith_singleton, hclean first (List.mem_cons_self ..)]
      · have hsplit := ih hrest (fun piece hpiece => hpieces piece (List.mem_cons_of_mem _ hpiece))
          fun piece hpiece => hclean piece (List.mem_cons_of_mem _ hpiece)
        rw [joinWith_cons _ first hrest, List.singleton_append, splitAt,
          splitBy_append_cons first (by simp)]
        change splitAt mark first ++ splitAt mark _ = _
        rw [hsplit, hclean first (List.mem_cons_self ..)]
        rfl

theorem joinWith_splitAt (mark : Char) (s : List Char) :
    joinWith [mark] (splitAt mark s) = s := by
  induction s with
  | nil => rfl
  | cons c s ih =>
      rw [splitAt] at ih ⊢
      have hne := splitBy_ne_nil (p := (· == mark)) s
      rw [splitBy]
      split
      · rename_i hc
        rw [joinWith_cons _ _ hne, ih, beq_iff_eq.mp hc]
        rfl
      · obtain ⟨piece, pieces, hpieces⟩ := List.exists_cons_of_ne_nil hne
        rw [hpieces] at ih ⊢
        by_cases hrest : pieces = []
        · subst hrest
          rw [joinWith_singleton] at ih ⊢
          rw [ih]
        · rw [joinWith_cons _ _ hrest] at ih ⊢
          rw [List.cons_append, ih]

theorem not_mem_of_mem_splitAt {mark : Char} {s piece : List Char} (h : piece ∈ splitAt mark s) :
    mark ∉ piece := by
  induction s generalizing piece with
  | nil =>
      obtain rfl : piece = [] := by simpa [splitAt, splitBy] using h
      simp
  | cons c s ih =>
      rw [splitAt, splitBy] at h
      split at h
      · rcases List.mem_cons.mp h with rfl | h
        · simp
        · exact ih h
      · rename_i hc
        obtain ⟨first, rest, hrest⟩ := List.exists_cons_of_ne_nil (splitBy_ne_nil (p := (· == mark)) s)
        simp only [hrest] at h
        rcases List.mem_cons.mp h with rfl | h
        · have hfirst : mark ∉ first := ih (by rw [splitAt, hrest]; exact List.mem_cons_self ..)
          have hne : mark ≠ c := fun heq => hc (by simp [heq])
          simp [hfirst, hne]
        · exact ih (by rw [splitAt, hrest]; exact List.mem_cons_of_mem _ h)

/-- The pieces of a text are parts of it. -/
theorem infix_of_mem_splitAt {mark : Char} {s piece : List Char} (h : piece ∈ splitAt mark s) :
    piece <:+: s := by
  have hjoin := joinWith_splitAt mark s
  obtain ⟨before, after, hsplit⟩ := List.append_of_mem h
  rw [hsplit] at hjoin
  have htail : ∀ rest : List (List Char), ∃ t, joinWith [mark] (piece :: rest) = piece ++ t := by
    intro rest
    by_cases hrest : rest = []
    · exact ⟨[], by simp [hrest]⟩
    · exact ⟨_, joinWith_cons _ _ hrest⟩
  obtain ⟨t, ht⟩ := htail after
  by_cases hbefore : before = []
  · rw [hbefore, List.nil_append, ht] at hjoin
    exact ⟨[], t, by simpa using hjoin⟩
  · rw [joinWith_append _ hbefore (List.cons_ne_nil _ _), ht] at hjoin
    exact ⟨joinWith [mark] before ++ [mark], t, by simpa using hjoin⟩

/-! ## The two ends -/

/-- The first piece begins where the text does. -/
theorem exists_splitAt_cons {mark c : Char} (hc : c ≠ mark) (s : List Char) :
    ∃ piece pieces, splitAt mark (c :: s) = (c :: piece) :: pieces := by
  obtain ⟨piece, pieces, hpieces⟩ := List.exists_cons_of_ne_nil (splitBy_ne_nil (p := (· == mark)) s)
  refine ⟨piece, pieces, ?_⟩
  rw [splitAt, splitBy, if_neg (by simpa using hc), hpieces]

/-- The last piece ends where the text does. -/
theorem exists_getLast?_splitAt {mark c : Char} (hc : c ≠ mark) (s : List Char) :
    ∃ piece, (splitAt mark (s ++ [c])).getLast? = some (piece ++ [c]) := by
  induction s with
  | nil => exact ⟨[], by simp [splitAt, splitBy, hc]⟩
  | cons d s ih =>
      obtain ⟨piece, hlast⟩ := ih
      obtain ⟨first, rest, hpieces⟩ := List.exists_cons_of_ne_nil
        (splitBy_ne_nil (p := (· == mark)) (s ++ [c]))
      rw [splitAt, hpieces] at hlast
      rw [splitAt, List.cons_append, splitBy, hpieces]
      split
      · exact ⟨piece, by rw [List.getLast?_cons_cons, hlast]⟩
      · cases rest with
        | nil =>
            obtain rfl : first = piece ++ [c] := by simpa using hlast
            exact ⟨d :: piece, rfl⟩
        | cons second rest => exact ⟨piece, by simpa using hlast⟩

theorem takeWhile_append_cons_of_neg (s : List Char) {c : Char} (hc : p c = false) (t : List Char) :
    (s ++ c :: t).takeWhile p = s.takeWhile p := by
  induction s with
  | nil => simp [hc]
  | cons d s ih => simp [List.takeWhile_cons, ih]

theorem dropWhile_append_cons_of_neg (s : List Char) {c : Char} (hc : p c = false) (t : List Char) :
    (s ++ c :: t).dropWhile p = s.dropWhile p ++ c :: t := by
  induction s with
  | nil => simp [hc]
  | cons d s ih =>
      rw [List.cons_append, List.dropWhile_cons, List.dropWhile_cons, ih]
      split <;> rfl

theorem trimRight_append_cons_of_neg (s : List Char) {c : Char} (hc : p c = false)
    (t : List Char) : trimRight p (s ++ c :: t) = s ++ c :: trimRight p t := by
  rw [trimRight, List.reverse_append, List.reverse_cons, List.append_assoc, List.singleton_append,
    dropWhile_append_cons_of_neg _ hc]
  simp [trimRight]

theorem trimRight_append_of_pos (s : List Char) {c : Char} (hc : p c = true) :
    trimRight p (s ++ [c]) = trimRight p s := by
  simp [trimRight, hc]

theorem trimRight_trimRight (s : List Char) : trimRight p (trimRight p s) = trimRight p s := by
  rw [trimRight, trimRight, List.reverse_reverse]
  congr 1
  cases hdrop : s.reverse.dropWhile p with
  | nil => rfl
  | cons c rest =>
      have hhead := List.head?_dropWhile_not p s.reverse
      rw [hdrop] at hhead
      exact List.dropWhile_cons_of_neg (by simpa using hhead)

/-- A text that was trimmed has nothing left to trim. -/
theorem trimBy_trimBy (s : List Char) : trimBy p (trimBy p s) = trimBy p s := by
  have hleft : trimLeft p (trimBy p s) = trimBy p s := by
    unfold trimBy trimLeft
    cases htrimmed : trimRight p (s.dropWhile p) with
    | nil => rfl
    | cons c rest =>
        -- Its first character is that of the text without what was cut off on the left.
        obtain ⟨cut, hcut⟩ : c :: rest <+: s.dropWhile p := by
          rw [← htrimmed, trimRight, ← List.reverse_suffix, List.reverse_reverse]
          exact List.dropWhile_suffix p
        have hhead := List.head?_dropWhile_not p s
        rw [← hcut] at hhead
        exact List.dropWhile_cons_of_neg (by simpa using hhead)
  rw [trimBy, hleft]
  exact trimRight_trimRight _

theorem trimBy_subset (s : List Char) : trimBy p s ⊆ s := by
  intro c hc
  unfold trimBy trimRight trimLeft at hc
  have hkept := (List.dropWhile_sublist p).subset (List.mem_reverse.1 hc)
  exact (List.dropWhile_sublist p).subset (List.mem_reverse.1 hkept)

end Folio.Text
