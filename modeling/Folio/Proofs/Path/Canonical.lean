import Folio.Layout
import Folio.Proofs.Text.Distinct

/-!
# Canonical paths

Resolving a path gives one that starts at the root and goes down only: no name is
`..`, and each can name a file.  Such a path is the one spelling of the place it
leads to, and resolving it again changes nothing.

Paths are ordered by their names, one after another, and canonical paths with the same names are
one.  So a list of canonical paths that is sorted without repetitions is strictly increasing
(`Path.pairwise_sortDistinct`), and there is one such list of given members: how they were
collected does not show (`Path.sortDistinct_congr`).

The directories of a layout are canonical, and so are the roots of its templates.
No file lies in two of those roots.
-/

namespace Folio

namespace Path

/-- What resolving gives: names from the root down, each of which can name a file. -/
structure IsCanonical (p : Path) : Prop where
  anchor_eq : p.anchor = .root
  not_mem : ".." ∉ p.parts
  usable : ∀ name ∈ p.parts, isUsable name

/-! ## Resolving -/

theorem normalParts_of_not_mem {names : List String} (hnames : ".." ∉ names)
    (done : List String) : normalParts done names = done ++ names := by
  unfold normalParts
  induction names generalizing done with
  | nil => simp
  | cons name rest ih =>
      have hname : name ≠ ".." := fun h => hnames (by simp [h])
      rw [List.foldl_cons, if_neg hname, ih fun h => hnames (List.mem_cons_of_mem _ h)]
      simp

/-- Names that are left were there. -/
theorem mem_of_mem_normalParts {names done : List String} {name : String}
    (hname : name ∈ normalParts done names) : name ∈ done ∨ name ∈ names ∧ name ≠ ".." := by
  unfold normalParts at hname
  induction names generalizing done with
  | nil => exact Or.inl hname
  | cons next rest ih =>
      rw [List.foldl_cons] at hname
      rcases ih hname with h | ⟨h, hup⟩
      · split at h
        · exact Or.inl (List.dropLast_subset _ h)
        · rename_i hnext
          rcases List.mem_append.1 h with h | h
          · exact Or.inl h
          · obtain rfl := List.mem_singleton.1 h
            exact Or.inr ⟨List.mem_cons_self .., hnext⟩
      · exact Or.inr ⟨List.mem_cons_of_mem _ h, hup⟩

/-- Whatever the directory, resolving gives a canonical path. -/
theorem isCanonical_of_resolve {here p q : Path} (hresolve : resolve here p = .ok q) :
    q.IsCanonical := by
  unfold resolve at hresolve
  split at hresolve
  · rename_i husable
    cases hresolve
    have hmem : ∀ name ∈ (absolute here p).parts, name ∈ (here.join p).parts ∧ name ≠ ".." := by
      intro name hname
      rcases mem_of_mem_normalParts hname with h | h
      · exact absurd h (List.not_mem_nil)
      · exact h
    refine ⟨rfl, fun hup => (hmem _ hup).2 rfl, fun name hname => ?_⟩
    exact List.all_eq_true.1 husable name (hmem name hname).1
  · cases hresolve

theorem isCanonical_of_resolved {p q : Path} (hresolved : p.resolved = .ok q) :
    q.IsCanonical :=
  isCanonical_of_resolve hresolved

/-- A canonical path is its own resolution. -/
theorem IsCanonical.resolved_eq {p : Path} (hp : p.IsCanonical) : p.resolved = .ok p := by
  obtain ⟨anchor, parts⟩ := p
  obtain ⟨rfl, hup, husable⟩ := hp
  have hall : (parts.all isUsable) = true := List.all_eq_true.2 husable
  show (if parts.all isUsable then _ else _) = _
  rw [if_pos hall]
  show Except.ok (⟨.root, normalParts [] parts⟩ : Path) = _
  rw [normalParts_of_not_mem hup, List.nil_append]

/-- Two canonical paths with the same names are one. -/
theorem IsCanonical.ext {p q : Path} (hp : p.IsCanonical) (hq : q.IsCanonical)
    (hparts : p.parts = q.parts) : p = q := by
  obtain ⟨_, _⟩ := p
  obtain ⟨_, _⟩ := q
  obtain ⟨rfl, -, -⟩ := hp
  obtain ⟨rfl, -, -⟩ := hq
  obtain rfl := hparts
  rfl

/-! ## Lying in a directory -/

theorem isUnder_iff {p directory : Path} :
    isUnder directory p = true ↔ p.anchor = directory.anchor ∧ directory.parts <+: p.parts := by
  unfold isUnder relativeTo?
  split
  · rename_i h
    simpa using h
  · rename_i h
    simpa using h

/-! ## In order -/

variable {p q : Path} {paths paths' : List Path}

/-- The order of names is that of lists. -/
theorem namesLE_iff {names names' : List String} :
    namesLE names names' = true ↔ ¬ names' < names := by
  induction names generalizing names' with
  | nil => simp [namesLE]
  | cons name rest ih =>
      cases names' with
      | nil => simp [namesLE]
      | cons name' rest' =>
          rw [List.cons_lt_cons_iff, namesLE]
          by_cases hsame : name = name'
          · subst hsame
            simp [ih, String.lt_irrefl]
          · rw [if_neg hsame, decide_eq_true_iff]
            constructor
            · rintro hlt (hgt | ⟨hsame', -⟩)
              · exact String.lt_asymm hlt hgt
              · exact hsame hsame'.symm
            · intro hnone
              have hle : name ≤ name' := String.not_lt.1 fun h => hnone (.inl h)
              exact Decidable.byContradiction fun h =>
                hsame (String.le_antisymm hle (String.not_lt.1 h))

theorem le_iff : p.le q = true ↔ ¬ q.orderKey < p.orderKey :=
  namesLE_iff

theorem IsCanonical.orderKey_eq (hp : p.IsCanonical) : p.orderKey = "/" :: p.parts := by
  unfold orderKey
  rw [hp.anchor_eq]
  rfl

/-- Canonical paths are ordered by the names below the root. -/
theorem IsCanonical.le_iff (hp : p.IsCanonical) (hq : q.IsCanonical) :
    p.le q = true ↔ ¬ q.parts < p.parts := by
  rw [Path.le_iff, hp.orderKey_eq, hq.orderKey_eq, List.cons_lt_cons_iff]
  simp [String.lt_irrefl]

/-! ## Sorting -/

theorem mem_sortDistinct : p ∈ sortDistinct paths ↔ p ∈ paths := by
  rw [sortDistinct, List.mem_mergeSort, List.mem_eraseDups]

theorem nodup_sortDistinct (paths : List Path) : (sortDistinct paths).Nodup := by
  rw [sortDistinct, (List.mergeSort_perm _ _).nodup_iff, ← Text.distinct_eq_eraseDups]
  exact Text.nodup_distinct paths

theorem pairwise_le_sortDistinct (paths : List Path) :
    (sortDistinct paths).Pairwise fun p q => p.le q = true := by
  refine List.pairwise_mergeSort (fun a b c hab hbc => ?_) (fun a b => ?_) _
  · rw [Path.le_iff, List.not_lt] at hab hbc ⊢
    exact List.le_trans hab hbc
  · rw [Bool.or_eq_true, Path.le_iff, Path.le_iff, List.not_lt, List.not_lt]
    exact List.le_total _ _

/-- **Sorted without repetitions**, canonical paths are strictly increasing by their names. -/
theorem pairwise_sortDistinct (hpaths : ∀ p ∈ paths, p.IsCanonical) :
    (sortDistinct paths).Pairwise fun p q => p.parts < q.parts := by
  have hcanonical : ∀ p ∈ sortDistinct paths, p.IsCanonical := fun p hp =>
    hpaths p (mem_sortDistinct.1 hp)
  refine ((pairwise_le_sortDistinct paths).and (nodup_sortDistinct paths)).imp_of_mem ?_
  rintro p q hp hq ⟨hle, hne⟩
  have hp := hcanonical p hp
  have hq := hcanonical q hq
  have hparts := (hp.le_iff hq).1 hle
  rw [List.not_lt] at hparts
  exact (List.le_iff_lt_or_eq.1 hparts).resolve_right fun h => hne (hp.ext hq h)

/-- Only the members count, not how often and in which order they are given. -/
theorem sortDistinct_congr (hpaths : ∀ p ∈ paths, p.IsCanonical)
    (hsame : ∀ p, p ∈ paths ↔ p ∈ paths') : sortDistinct paths = sortDistinct paths' := by
  have hpaths' : ∀ p ∈ paths', p.IsCanonical := fun p hp => hpaths p ((hsame p).2 hp)
  have hperm : (sortDistinct paths).Perm (sortDistinct paths') := by
    rw [List.perm_ext_iff_of_nodup (nodup_sortDistinct paths) (nodup_sortDistinct paths')]
    exact fun p => by rw [mem_sortDistinct, mem_sortDistinct, hsame]
  exact hperm.eq_of_pairwise (fun p q _ _ hpq hqp => absurd hqp (List.lt_asymm hpq))
    (pairwise_sortDistinct hpaths) (pairwise_sortDistinct hpaths')

end Path

/-! ## The roots of the templates -/

theorem RootKind.directory_injective {k k' : RootKind} (h : k.directory = k'.directory) :
    k = k' := by
  revert h
  cases k <;> cases k' <;> decide

namespace Layout

variable {l : Layout} {p : Path}

@[simp] theorem parts_rootOf (kind : RootKind) :
    (l.rootOf kind).parts = l.templates.parts ++ [kind.directory] := by
  cases kind <;> rfl

@[simp] theorem anchor_rootOf (kind : RootKind) :
    (l.rootOf kind).anchor = l.templates.anchor := by
  cases kind <;> rfl

/-- No path lies in the roots of two kinds. -/
theorem kind_unique {k k' : RootKind} (hk : Path.isUnder (l.rootOf k) p)
    (hk' : Path.isUnder (l.rootOf k') p) : k = k' := by
  rw [Path.isUnder_iff, parts_rootOf] at hk hk'
  have hlength : (l.templates.parts ++ [k.directory]).length =
      (l.templates.parts ++ [k'.directory]).length := by simp
  have hstarts := List.prefix_of_prefix_length_le hk.2 hk'.2 (Nat.le_of_eq hlength)
  have hsame := hstarts.eq_of_length hlength
  exact RootKind.directory_injective (by simpa using hsame)

/-- The kind of a path is the one whose root it lies in. -/
theorem kindOf_eq_some_iff {kind : RootKind} :
    l.kindOf p = some kind ↔ Path.isUnder (l.rootOf kind) p := by
  constructor
  · intro hkind
    simpa using List.find?_some hkind
  · intro hunder
    cases hfound : l.kindOf p with
    | none =>
        have hall : kind ∈ RootKind.all := by cases kind <;> decide
        exact absurd hunder (List.find?_eq_none.1 hfound kind hall)
    | some found =>
        have hfound' : Path.isUnder (l.rootOf found) p := by simpa using List.find?_some hfound
        rw [kind_unique hfound' hunder]

end Layout

end Folio
