import Folio.Text.Blank
import Mathlib.Data.List.TakeWhile

/-!
# What white space cannot change

The *ink* of a text is what is left when all white space is deleted.  Cutting a
text at white space, trimming it and joining pieces with white space leave the
ink as it is; the lemmas here say so for each such operation.  The classes of
white space that appear, of HTML and of spaces and tabs, are parts of the
class that ink leaves out.
-/

namespace Folio.Text

/-- A text without its white space. -/
def ink (s : List Char) : List Char :=
  s.filter fun c => !isBlank c

@[simp] theorem ink_nil : ink [] = [] := rfl

@[simp] theorem ink_append (s t : List Char) : ink (s ++ t) = ink s ++ ink t :=
  List.filter_append ..

theorem ink_cons (c : Char) (s : List Char) :
    ink (c :: s) = if isBlank c then ink s else c :: ink s := by
  cases hc : isBlank c <;> simp [ink, hc]

/-- A text of white space has no ink. -/
theorem ink_eq_nil {s : List Char} (hs : ∀ c ∈ s, isBlank c) : ink s = [] := by
  rw [ink, List.filter_eq_nil_iff]
  intro c hc
  simp [hs c hc]

theorem ink_flatten_append (xs ys : List (List Char)) :
    ink (xs ++ ys).flatten = ink xs.flatten ++ ink ys.flatten := by
  rw [List.flatten_append, ink_append]

/-! ## Classes of white space -/

theorem isBlank_of_isLayoutBlank {c : Char} (hc : isLayoutBlank c) : isBlank c := by
  simp only [isLayoutBlank, Bool.or_eq_true, beq_iff_eq] at hc
  rcases hc with (((rfl | rfl) | rfl) | rfl) | rfl <;> decide

theorem isBlank_of_isSpaceOrTab {c : Char} (hc : isSpaceOrTab c) : isBlank c := by
  simp only [isSpaceOrTab, Bool.or_eq_true, beq_iff_eq] at hc
  rcases hc with rfl | rfl <;> decide

theorem isBlank_of_beq_newline {c : Char} (hc : c == '\n') : isBlank c := by
  rw [beq_iff_eq] at hc
  subst hc
  decide

/-! ## Trimming

Throughout, `p` is a class of white space. -/

section

variable {p : Char → Bool} (hp : ∀ {c}, p c → isBlank c)
include hp

theorem ink_takeWhile (s : List Char) : ink (s.takeWhile p) = [] :=
  ink_eq_nil fun _ hc => hp (List.mem_takeWhile_imp hc)

theorem ink_dropWhile (s : List Char) : ink (s.dropWhile p) = ink s := by
  have hsplit : ink (s.takeWhile p ++ s.dropWhile p) = ink s := by
    rw [List.takeWhile_append_dropWhile]
  rwa [ink_append, ink_takeWhile hp, List.nil_append] at hsplit

theorem ink_trimRight (s : List Char) : ink (trimRight p s) = ink s := by
  have hback : ink (s.reverse.dropWhile p) = ink s.reverse := ink_dropWhile hp s.reverse
  have hflip : ∀ t : List Char, ink t.reverse = (ink t).reverse := fun _ => List.filter_reverse
  rw [trimRight, hflip, hback, hflip, List.reverse_reverse]

theorem ink_trimBy (s : List Char) : ink (trimBy p s) = ink s := by
  rw [trimBy, ink_trimRight hp, trimLeft, ink_dropWhile hp]

/-! ## Cutting -/

theorem ink_splitBy (s : List Char) : ink (splitBy p s).flatten = ink s := by
  induction s with
  | nil => rfl
  | cons c rest ih =>
      unfold splitBy
      split
      · rename_i hc
        rw [List.flatten_cons, List.nil_append, ih, ink_cons, if_pos (hp hc)]
      · split
        · rename_i hrest
          rw [hrest] at ih
          rw [ink_cons, ← ih]
          simp [ink_cons]
        · rename_i piece pieces hrest
          rw [hrest] at ih
          rw [ink_cons c rest, ← ih]
          simp [ink_cons]

theorem ink_wordsBy (s : List Char) : ink (wordsBy p s).flatten = ink s := by
  rw [wordsBy, List.flatten_filter_not_isEmpty, ink_splitBy hp]

end

theorem ink_splitAt_newline (s : List Char) : ink (splitAt '\n' s).flatten = ink s :=
  ink_splitBy isBlank_of_beq_newline s

/-! ## Joining -/

theorem ink_joinWith {mark : List Char} (hmark : ink mark = []) (pieces : List (List Char)) :
    ink (joinWith mark pieces) = ink pieces.flatten := by
  unfold joinWith
  induction pieces with
  | nil => rfl
  | cons piece rest ih =>
      cases rest with
      | nil => rfl
      | cons next more =>
          rw [List.intersperse_cons_cons, List.flatten_cons, List.flatten_cons, ink_append,
            ink_append, hmark, List.nil_append, ih, ← ink_append, ← List.flatten_cons]

/-- Lines may be changed one by one, as long as each keeps its ink. -/
theorem ink_flatten_map {f : List Char → List Char} {ls : List (List Char)}
    (hf : ∀ line ∈ ls, ink (f line) = ink line) : ink (ls.map f).flatten = ink ls.flatten := by
  induction ls with
  | nil => rfl
  | cons line rest ih =>
      rw [List.map_cons, List.flatten_cons, List.flatten_cons, ink_append, ink_append,
        hf line (List.mem_cons_self ..), ih fun l hl => hf l (List.mem_cons_of_mem _ hl)]

end Folio.Text
