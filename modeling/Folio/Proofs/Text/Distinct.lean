import Folio.Text.Occurrence
import Mathlib.Data.List.Basic
import Mathlib.Data.List.Induction

/-!
# Distinct members of a list

`distinct` keeps each member where it first appears.  So the members are those of the list, once
each, in the order of their first places (`pairwise_distinct`), and a part of the list that has
no new member can be left out.
-/

namespace Folio.Text

variable {α : Type}

/-! ## Two ways to drop repetitions -/

/-- The distinct members of a list are those that are left when every repetition of an
earlier one is taken out. -/
theorem distinct_eq_eraseDups [BEq α] [LawfulBEq α] [DecidableEq α] (xs : List α) :
    distinct xs = xs.eraseDups := by
  obtain rfl : ‹BEq α› = instBEqOfDecidableEq := lawful_beq_subsingleton _ _
  have hfold : ∀ seen : List α,
      xs.foldl (fun seen x => if x ∈ seen then seen else seen ++ [x]) seen =
        seen ++ (xs.filter fun x => !decide (x ∈ seen)).eraseDups := by
    induction xs with
    | nil => intro seen; simp
    | cons x xs ih =>
        intro seen
        rw [List.foldl_cons]
        by_cases hx : x ∈ seen
        · rw [if_pos hx, ih, List.filter_cons_of_neg (by simp [hx])]
        · rw [if_neg hx, ih, List.filter_cons_of_pos (by simp [hx]), List.eraseDups_cons,
            List.append_assoc, List.singleton_append, List.filter_filter]
          congr 4
          funext y
          simp only [List.mem_append, List.mem_singleton, Bool.decide_or, Bool.not_or]
          rw [Bool.and_comm]
          rfl
  have hall : xs.filter (fun x => !decide (x ∈ ([] : List α))) = xs :=
    List.filter_eq_self.2 fun x _ => by simp
  unfold distinct
  rw [hfold [], hall, List.nil_append]

theorem eraseDups_of_nodup [BEq α] [LawfulBEq α] {xs : List α} (hxs : xs.Nodup) :
    xs.eraseDups = xs := by
  induction xs with
  | nil => rfl
  | cons x xs ih =>
      obtain ⟨hx, hrest⟩ := List.nodup_cons.1 hxs
      have hkept : xs.filter (fun y => !y == x) = xs :=
        List.filter_eq_self.2 fun y hy => by
          have hne : y ≠ x := fun h => hx (h ▸ hy)
          simp [hne]
      rw [List.eraseDups_cons, hkept, ih hrest]

/-! ## Order of first appearance -/

section

variable [DecidableEq α]

theorem mem_distinct {x : α} {xs : List α} : x ∈ distinct xs ↔ x ∈ xs := by
  rw [distinct_eq_eraseDups, List.mem_eraseDups]

theorem distinct_concat (xs : List α) (x : α) :
    distinct (xs ++ [x]) = if x ∈ xs then distinct xs else distinct xs ++ [x] := by
  have hlast : distinct (xs ++ [x]) =
      if x ∈ distinct xs then distinct xs else distinct xs ++ [x] := by
    rw [distinct, List.foldl_append]
    rfl
  rw [hlast]
  simp only [mem_distinct]

/-- The distinct members of a list are in the order in which they first appear there. -/
theorem pairwise_distinct [BEq α] [LawfulBEq α] (xs : List α) :
    (distinct xs).Pairwise fun x y => xs.idxOf x < xs.idxOf y := by
  induction xs using List.reverseRecOn with
  | nil => exact List.Pairwise.nil
  | append_singleton xs x ih =>
      have hindex : ∀ y ∈ distinct xs, (xs ++ [x]).idxOf y = xs.idxOf y := fun y hy =>
        List.idxOf_append_of_mem (mem_distinct.mp hy)
      have hkept : (distinct xs).Pairwise fun y z => (xs ++ [x]).idxOf y < (xs ++ [x]).idxOf z :=
        ih.imp_of_mem fun hy hz hlt => by rwa [hindex _ hy, hindex _ hz]
      rw [distinct_concat]
      split
      · exact hkept
      · rename_i hnew
        refine List.pairwise_append.mpr ⟨hkept, List.pairwise_singleton _ _, fun y hy z hz => ?_⟩
        obtain rfl := List.mem_singleton.mp hz
        rw [hindex y hy, List.idxOf_append_of_notMem hnew]
        exact Nat.lt_add_right _ (List.idxOf_lt_length_iff.mpr (mem_distinct.mp hy))

theorem nodup_distinct (xs : List α) : (distinct xs).Nodup :=
  (pairwise_distinct xs).imp fun hlt heq => absurd (heq ▸ hlt) (Nat.lt_irrefl _)

theorem distinct_append_of_subset {xs ys : List α} (hys : ∀ y ∈ ys, y ∈ xs) :
    distinct (xs ++ ys) = distinct xs := by
  induction ys using List.reverseRecOn with
  | nil => rw [List.append_nil]
  | append_singleton ys y ih =>
      have hy : y ∈ xs ++ ys := List.mem_append_left _ (hys y (by simp))
      rw [← List.append_assoc, distinct_concat, if_pos hy,
        ih fun z hz => hys z (List.mem_append_left _ hz)]

/-- What comes before a list counts for its distinct members only. -/
theorem distinct_append_congr {xs ys : List α} (h : distinct xs = distinct ys) (zs : List α) :
    distinct (xs ++ zs) = distinct (ys ++ zs) := by
  unfold distinct at h ⊢
  rw [List.foldl_append, List.foldl_append, h]

/-- A member that comes again brings nothing new. -/
theorem distinct_flatMap_distinct {β : Type} [DecidableEq β] (f : α → List β) (xs : List α) :
    distinct ((distinct xs).flatMap f) = distinct (xs.flatMap f) := by
  induction xs using List.reverseRecOn with
  | nil => rfl
  | append_singleton xs x ih =>
      rw [distinct_concat, List.flatMap_append, List.flatMap_singleton]
      split
      · rename_i hx
        rw [ih, distinct_append_of_subset fun y hy => List.mem_flatMap.mpr ⟨x, hx, hy⟩]
      · rw [List.flatMap_append, List.flatMap_singleton]
        exact distinct_append_congr ih _

end

end Folio.Text
