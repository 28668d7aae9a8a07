import Folio.Markup.Reader
import Folio.Proofs.Text.Cutting

/-!
# Closing marks

A construct is read up to the first place at which its rule finds a closing mark.  A text with a
mark behind it is read to its end if the rule finds none before (`splitAtMark_append`).

The marks of comments and sections end in an angle bracket that blanks may precede, so that a
mark can begin in a text and end behind it.  `append_eq_of_not_hasMark` says that it then ends
where the mark behind the text does; as no blanks stand there, nothing of it is in the text.
-/

namespace Folio.Markup

open Text

/-! ## Reading up to a mark -/

/-- A text is split at a mark that is found nowhere before. -/
theorem splitAtMark_append {close? : List Char → Option (List Char)} {body tail rest : List Char}
    (hbody : ∀ back, back <:+ body → back ≠ [] → close? (back ++ tail) = none)
    (hne : tail ≠ []) (htail : close? tail = some rest) :
    splitAtMark close? (body ++ tail) = some (body, rest) := by
  induction body with
  | nil =>
      obtain ⟨c, more, rfl⟩ := List.exists_cons_of_ne_nil hne
      rw [List.nil_append, splitAtMark, htail]
  | cons c body ih =>
      have hrest := ih fun back hback => hbody back (hback.trans (List.suffix_cons c body))
      have hnone := hbody (c :: body) List.suffix_rfl (List.cons_ne_nil _ _)
      rw [List.cons_append] at hnone ⊢
      rw [splitAtMark, hnone, hrest]
      rfl

theorem splitAtMark_closeMark {mark : Char} {body : List Char} (hbody : ∀ c ∈ body, c ≠ mark)
    (rest : List Char) : splitAtMark (closeMark mark) (body ++ mark :: rest) = some (body, rest) := by
  refine splitAtMark_append ?_ (List.cons_ne_nil _ _) (by simp [closeMark])
  intro back hback hne
  obtain ⟨c, back, rfl⟩ := List.exists_cons_of_ne_nil hne
  have hc : c ≠ mark := hbody c (hback.subset List.mem_cons_self)
  simp [closeMark, hc]

theorem exists_of_blanksThen {mark : Char} {s rest : List Char}
    (h : blanksThen mark s = some rest) :
    ∃ blanks, (∀ c ∈ blanks, isBlank c = true) ∧ s = blanks ++ mark :: rest := by
  refine ⟨s.takeWhile isBlank, fun c hc => List.mem_takeWhile_imp hc, ?_⟩
  have hsplit := List.takeWhile_append_dropWhile (p := isBlank) (l := s)
  cases hdrop : s.dropWhile isBlank with
  | nil =>
      rw [blanksThen, hdrop] at h
      cases h
  | cons c tail =>
      rw [blanksThen, hdrop, closeMark] at h
      split at h
      · rename_i hc
        obtain rfl := Option.some.inj h
        rw [← beq_iff_eq.mp hc, ← hdrop, hsplit]
      · cases h

theorem blanksThen_self (mark : Char) (hmark : isBlank mark = false) (rest : List Char) :
    blanksThen mark (mark :: rest) = some rest := by
  rw [blanksThen, List.dropWhile_cons_of_neg (by simp [hmark]), closeMark, if_pos (by simp)]

/-! ## Marks in a text -/

/-- A closing mark in a text: a beginning, blanks and an angle bracket. -/
def HasMark (start body : List Char) : Prop :=
  ∃ blanks : List Char, (∀ c ∈ blanks, isBlank c = true) ∧ start ++ (blanks ++ ['>']) <:+: body

/-- A mark that begins before the end of a text, which has none, ends with the first angle
bracket behind the text. -/
theorem append_eq_of_not_hasMark {start blanks back final rest t : List Char}
    (hblanks : ∀ c ∈ blanks, isBlank c = true) (hstart : '>' ∉ start) (hfinal : '>' ∉ final)
    (hback : ¬ HasMark start back)
    (h : back ++ (final ++ '>' :: rest) = start ++ (blanks ++ '>' :: t)) :
    start ++ blanks = back ++ final := by
  have hstem : '>' ∉ start ++ blanks := by
    intro hmem
    rcases List.mem_append.mp hmem with hmem | hmem
    · exact hstart hmem
    · exact absurd (hblanks _ hmem) (by decide)
  have hcut : ∀ s u : List Char, '>' ∉ s → (s ++ '>' :: u).takeWhile (· != '>') = s := by
    intro s u hs
    rw [takeWhile_append_cons_of_neg s (by decide), List.takeWhile_eq_self_iff]
    intro c hc
    simpa using fun heq : c = '>' => hs (heq ▸ hc)
  rw [← List.append_assoc start] at h
  rcases List.append_eq_append_iff.mp h with ⟨inner, hinner, hrest⟩ | ⟨inner, hinner, hrest⟩
  · have hnone : '>' ∉ inner := fun hmem => hstem (by rw [hinner]; simp [hmem])
    have hsame : final = inner := by
      rw [← hcut final rest hfinal, hrest, hcut inner t hnone]
    rw [hinner, hsame]
  · cases inner with
    | nil =>
        have hsame : final = [] := by
          rw [← hcut final rest hfinal, ← List.nil_append (final ++ '>' :: rest), ← hrest]
          rfl
        simp [hinner, hsame]
    | cons c inner =>
        -- the angle bracket stands in the text, and the mark with it
        obtain ⟨rfl, -⟩ := List.cons.inj hrest
        exact absurd ⟨blanks, hblanks, [], inner, by simp [hinner]⟩ hback

/-- Where a text ends in ink, no blanks stand at its end. -/
theorem blanks_eq_nil {front blanks s : List Char} {c : Char}
    (hblanks : ∀ d ∈ blanks, isBlank d = true) (hc : isBlank c = false)
    (h : front ++ blanks = s ++ [c]) : blanks = [] ∧ front = s ++ [c] := by
  rcases List.eq_nil_or_concat blanks with rfl | ⟨init, last, rfl⟩
  · exact ⟨rfl, by simpa using h⟩
  · rw [List.concat_eq_append, ← List.append_assoc] at h
    obtain ⟨-, hlast⟩ := List.append_inj' h rfl
    obtain rfl : last = c := List.singleton_inj.mp hlast
    have hblank := hblanks last (by simp)
    rw [hc] at hblank
    cases hblank

theorem HasMark.isInfix {start body : List Char} (h : HasMark start body) : start <:+: body := by
  obtain ⟨blanks, -, hinfix⟩ := h
  exact (List.prefix_append _ _).isInfix.trans hinfix

theorem HasMark.mono {start back body : List Char} (h : HasMark start back)
    (hback : back <:+ body) : HasMark start body := by
  obtain ⟨blanks, hblanks, hinfix⟩ := h
  exact ⟨blanks, hblanks, hinfix.trans hback.isInfix⟩

/-- A rule that accepts certain beginnings in a closing mark reads a body that has none of
these marks up to the mark behind it, `final` being the beginning of that mark. -/
theorem splitAtMark_of_not_hasMark {close? : List Char → Option (List Char)}
    (IsStart : List Char → Prop) {final body rest : List Char}
    (hclose : ∀ s t, close? s = some t → ∃ start blanks, IsStart start ∧
      (∀ c ∈ blanks, isBlank c = true) ∧ s = start ++ (blanks ++ '>' :: t))
    (hstart : ∀ start, IsStart start → '>' ∉ start ∧ ¬ HasMark start body ∧
      ∀ back blanks, (∀ c ∈ blanks, isBlank c = true) → start ++ blanks = back ++ final → back = [])
    (hfinal : '>' ∉ final) (hself : close? (final ++ '>' :: rest) = some rest) :
    splitAtMark close? (body ++ (final ++ '>' :: rest)) = some (body, rest) := by
  refine splitAtMark_append ?_ (by simp) hself
  intro back hback hne
  rw [Option.eq_none_iff_forall_not_mem]
  intro t ht
  obtain ⟨start, blanks, hstarts, hblanks, heq⟩ := hclose _ t ht
  obtain ⟨hangle, hnone, hwhole⟩ := hstart start hstarts
  have hmark : start ++ blanks = back ++ final :=
    append_eq_of_not_hasMark hblanks hangle hfinal (fun h => hnone (h.mono hback)) heq
  exact hne (hwhole back blanks hblanks hmark)

/-- A comment whose body has no closing mark ends where it is written to end. -/
theorem splitAtMark_comment {body : List Char} (hbody : ¬ HasMark ['-', '-'] body)
    (rest : List Char) :
    splitAtMark commentClose (body ++ (['-', '-'] ++ '>' :: rest)) = some (body, rest) := by
  refine splitAtMark_of_not_hasMark (· = ['-', '-']) ?_ ?_ (by decide)
    (blanksThen_self '>' (by decide) rest)
  · intro s t h
    unfold commentClose at h
    split at h
    · obtain ⟨blanks, hblanks, rfl⟩ := exists_of_blanksThen h
      exact ⟨_, blanks, rfl, hblanks, rfl⟩
    · cases h
  · rintro start rfl
    refine ⟨by decide, hbody, ?_⟩
    intro back blanks hblanks h
    have hend : ['-', '-'] ++ blanks = (back ++ ['-']) ++ ['-'] := by
      rw [h]
      simp
    obtain ⟨rfl, -⟩ := blanks_eq_nil hblanks (by decide) hend
    exact List.self_eq_append_left.mp h

/-- The same for a conditional section. -/
theorem splitAtMark_conditional {body : List Char} (hbody : ¬ HasMark [']'] body)
    (rest : List Char) :
    splitAtMark conditionalClose (body ++ ([']'] ++ '>' :: rest)) = some (body, rest) := by
  refine splitAtMark_of_not_hasMark (· = [']']) ?_ ?_ (by decide)
    (blanksThen_self '>' (by decide) rest)
  · intro s t h
    unfold conditionalClose at h
    split at h
    · obtain ⟨blanks, hblanks, rfl⟩ := exists_of_blanksThen h
      exact ⟨_, blanks, rfl, hblanks, rfl⟩
    · cases h
  · rintro start rfl
    refine ⟨by decide, hbody, ?_⟩
    intro back blanks hblanks h
    obtain ⟨rfl, -⟩ := blanks_eq_nil hblanks (by decide) h
    exact List.self_eq_append_left.mp h

/-- The same for a section of character data, in whose mark blanks may stand behind each
square bracket. -/
theorem splitAtMark_data {body : List Char}
    (hbody : ∀ gap : List Char, (∀ c ∈ gap, isBlank c = true) →
      ¬ HasMark (']' :: (gap ++ [']'])) body) (rest : List Char) :
    splitAtMark sectionClose (body ++ ([']', ']'] ++ '>' :: rest)) = some (body, rest) := by
  have hself : sectionClose ([']', ']'] ++ '>' :: rest) = some rest := by
    change (blanksThen ']' (']' :: '>' :: rest)).bind (blanksThen '>') = some rest
    rw [blanksThen_self ']' (by decide), Option.bind_some, blanksThen_self '>' (by decide)]
  refine splitAtMark_of_not_hasMark
    (fun start => ∃ gap, (∀ c ∈ gap, isBlank c = true) ∧ start = ']' :: (gap ++ [']']))
    ?_ ?_ (by decide) hself
  · intro s t h
    unfold sectionClose at h
    split at h
    · obtain ⟨u, hbetween, hbehind⟩ := Option.bind_eq_some_iff.mp h
      obtain ⟨gap, hgap, rfl⟩ := exists_of_blanksThen hbetween
      obtain ⟨blanks, hblanks, rfl⟩ := exists_of_blanksThen hbehind
      exact ⟨_, blanks, ⟨gap, hgap, rfl⟩, hblanks, by simp⟩
    · cases h
  · rintro start ⟨gap, hgap, rfl⟩
    refine ⟨?_, hbody gap hgap, ?_⟩
    · simp only [List.mem_cons, List.mem_append, List.not_mem_nil, or_false, not_or]
      exact ⟨by decide, fun hmem => absurd (hgap _ hmem) (by decide), by decide⟩
    · intro back blanks hblanks h
      have hend : (']' :: (gap ++ [']'])) ++ blanks = (back ++ [']']) ++ [']'] := by
        rw [h]
        simp
      -- first no blanks stand behind the second bracket, then none behind the first
      obtain ⟨rfl, hfirst⟩ := blanks_eq_nil hblanks (by decide) hend
      have hfirst : ([']'] ++ gap) ++ [']'] = (back ++ [']']) ++ [']'] := hfirst
      obtain ⟨rfl, hsame⟩ := blanks_eq_nil hgap (by decide) (List.append_cancel_right hfirst)
      exact List.self_eq_append_left.mp hsame

end Folio.Markup
