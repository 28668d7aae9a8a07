import Folio.Proofs.Path.Canonical
import Folio.Space

/-!
# The space of a path

A path may lie in the templates of several spaces.  The search for its space goes through the
spaces once, and all that it compares are numbers of names: a space takes the place of the best
one so far if its directory has more names.  `Best` is what is known of the spaces that were
seen, and each step keeps it.

That the directory with the most names is the innermost one is a fact about paths.  All
directories that hold one path are beginnings of it, so of two of them the shorter one holds the
longer (`Path.isUnder_of_length_le`).
-/

namespace Folio

namespace Path

variable {p directory directory' : Path}

/-- The directories that hold a path form a chain. -/
theorem isUnder_of_length_le (h : isUnder directory p) (h' : isUnder directory' p)
    (hle : directory.parts.length ≤ directory'.parts.length) :
    isUnder directory directory' := by
  obtain ⟨hanchor, hstarts⟩ := isUnder_iff.1 h
  obtain ⟨hanchor', hstarts'⟩ := isUnder_iff.1 h'
  exact isUnder_iff.2 ⟨hanchor'.symm.trans hanchor,
    List.prefix_of_prefix_length_le hstarts hstarts' hle⟩

theorem length_le_of_isUnder (h : isUnder directory p) :
    directory.parts.length ≤ p.parts.length :=
  (isUnder_iff.1 h).2.length_le

theorem eq_of_isUnder_of_length (h : isUnder directory p)
    (hlength : directory.parts.length = p.parts.length) : directory = p := by
  obtain ⟨hanchor, hstarts⟩ := isUnder_iff.1 h
  obtain ⟨anchor, names⟩ := p
  obtain rfl : anchor = directory.anchor := hanchor
  obtain rfl : directory.parts = names := hstarts.eq_of_length hlength
  rfl

end Path

/-- The templates of a space lie in a directory that holds a path. -/
def Space.Holds (s : Space) (root directory target : Path) : Prop :=
  ∃ l, s.layout root = .ok l ∧ l.templates = directory ∧ Path.isUnder directory target

/-- The first of the spaces with the innermost directory that holds a path. -/
inductive IsDeepest (root target : Path) (spaces : List Space) (s : Space) : Prop
  | intro {directory : Path} {before after : List Space} (hspaces : spaces = before ++ s :: after)
      (hholds : s.Holds root directory target)
      (hinnermost : ∀ other ∈ spaces, ∀ outer, other.Holds root outer target →
        Path.isUnder outer directory)
      (hfirst : ∀ other ∈ before, ¬ other.Holds root directory target)

/-- What is known of the spaces that were seen, in numbers of names: that none holds the path,
or which has more names than those before it and no fewer than those after. -/
inductive Best (root target : Path) (seen : List Space) : Option (Nat × Space) → Prop
  | absent (hnone : ∀ s ∈ seen, ∀ directory, ¬ s.Holds root directory target) :
      Best root target seen none
  | present {directory : Path} {before after : List Space} {s : Space}
      (hseen : seen = before ++ s :: after) (hholds : s.Holds root directory target)
      (hmost : ∀ other ∈ seen, ∀ outer, other.Holds root outer target →
        outer.parts.length ≤ directory.parts.length)
      (hfirst : ∀ other ∈ before, ∀ outer, other.Holds root outer target →
        outer.parts.length < directory.parts.length) :
      Best root target seen (some (directory.parts.length, s))

variable {root target : Path} {seen rest spaces before after : List Space} {s s' : Space}
  {best : Option (Nat × Space)} {l : Layout}

/-! ## One space more -/

/-- A space has its templates in one directory. -/
theorem Space.Holds.eq_templates {directory : Path} (h : s.Holds root directory target)
    (hl : s.layout root = .ok l) : directory = l.templates := by
  obtain ⟨l', hl', rfl, -⟩ := h
  rw [hl] at hl'
  cases hl'
  rfl

/-- A space that does not hold the path, or with no more names than the best, is passed over. -/
theorem Best.keep (h : Best root target seen best) (hl : s.layout root = .ok l)
    (hpassed : Path.isUnder l.templates target →
      ∃ b, best = some b ∧ l.templates.parts.length ≤ b.1) :
    Best root target (seen ++ [s]) best := by
  cases h with
  | absent hnone =>
      refine .absent fun other hother directory hholds => ?_
      rcases List.mem_append.1 hother with hother | hother
      · exact hnone other hother directory hholds
      · obtain rfl := List.mem_singleton.1 hother
        obtain rfl := hholds.eq_templates hl
        obtain ⟨_, -, -, hunder⟩ := hholds
        obtain ⟨b, hb, -⟩ := hpassed hunder
        cases hb
  | present hseen hholds hmost hfirst =>
      refine .present (by rw [hseen, List.append_assoc, List.cons_append]) hholds
        (fun other hother outer houter => ?_) hfirst
      rcases List.mem_append.1 hother with hother | hother
      · exact hmost other hother outer houter
      · obtain rfl := List.mem_singleton.1 hother
        obtain rfl := houter.eq_templates hl
        obtain ⟨_, -, -, hunder⟩ := houter
        obtain ⟨b, hb, hle⟩ := hpassed hunder
        cases hb
        exact hle

/-- A space with more names than the best takes its place. -/
theorem Best.replace (h : Best root target seen best) (hl : s.layout root = .ok l)
    (hunder : Path.isUnder l.templates target)
    (hmore : ∀ b, best = some b → b.1 < l.templates.parts.length) :
    Best root target (seen ++ [s]) (some (l.templates.parts.length, s)) := by
  have hbefore : ∀ other ∈ seen, ∀ outer, other.Holds root outer target →
      outer.parts.length < l.templates.parts.length := by
    intro other hother outer houter
    cases h with
    | absent hnone => exact absurd houter (hnone other hother outer)
    | present hseen hholds hmost hfirst =>
        exact Nat.lt_of_le_of_lt (hmost other hother outer houter) (hmore _ rfl)
  refine .present rfl ⟨l, hl, rfl, hunder⟩ (fun other hother outer houter => ?_) hbefore
  rcases List.mem_append.1 hother with hother | hother
  · exact Nat.le_of_lt (hbefore other hother outer houter)
  · obtain rfl := List.mem_singleton.1 hother
    exact Nat.le_of_eq (congrArg (·.parts.length) (houter.eq_templates hl))

/-! ## All spaces -/

/-- The search comes to the best of all spaces if each has a layout. -/
theorem deepestSpace_best (h : Best root target seen best)
    (hrest : ∀ s ∈ rest, ∃ l, s.layout root = .ok l) :
    ∃ best', deepestSpace root target best rest = .ok (best'.map (·.2)) ∧
      Best root target (seen ++ rest) best' := by
  induction rest generalizing seen best with
  | nil => exact ⟨best, rfl, by rwa [List.append_nil]⟩
  | cons s rest ih =>
      obtain ⟨⟨l, hl⟩, hrest⟩ := List.forall_mem_cons.1 hrest
      have hsplit : seen ++ s :: rest = (seen ++ [s]) ++ rest := by simp
      unfold deepestSpace
      rw [hl, hsplit]
      simp only [bind, Except.bind]
      split
      · rename_i htaken
        rw [Bool.and_eq_true, Option.all_eq_true] at htaken
        refine ih (h.replace hl htaken.1 fun b hb => ?_) hrest
        simpa using htaken.2 b hb
      · rename_i hpassed
        refine ih (h.keep hl fun hunder => ?_) hrest
        rw [hunder, Bool.true_and, Option.all_eq_true] at hpassed
        push Not at hpassed
        obtain ⟨b, hb, hle⟩ := hpassed
        exact ⟨b, hb, by simpa using hle⟩

/-- A layout that a space has not got ends the search. -/
theorem deepestSpace_eq_error (hs : s ∈ rest) (hlayout : ∀ l, s.layout root ≠ .ok l) :
    deepestSpace root target best rest = .error .unusablePath := by
  have herror : ∀ {other : Space} {cause : Cause}, other.layout root = .error cause →
      cause = .unusablePath := by
    intro other cause hcause
    unfold Space.layout at hcause
    cases hcreate : Layout.create root root other.templates other.output with
    | error fault =>
        rw [hcreate] at hcause
        cases hcause
        rfl
    | ok l =>
        rw [hcreate] at hcause
        cases hcause
  induction rest generalizing best with
  | nil => cases hs
  | cons other rest ih =>
      unfold deepestSpace
      cases hother : other.layout root with
      | error cause => rw [herror hother]; rfl
      | ok l =>
          have hrest : s ∈ rest := by
            rcases List.mem_cons.1 hs with rfl | hrest
            · exact absurd hother (hlayout l)
            · exact hrest
          simp only [bind, Except.bind]
          split
          · exact ih hrest
          · exact ih hrest

/-- In names as in directories: the best of the spaces has the innermost one. -/
theorem Best.isDeepest {n : Nat} (h : Best root target spaces (some (n, s))) :
    IsDeepest root target spaces s := by
  cases h with
  | @present directory _ _ _ hspaces hholds hmost hfirst =>
      refine .intro hspaces hholds (fun other hother outer houter => ?_)
        fun other hother hsame => ?_
      · obtain ⟨_, -, -, hunder⟩ := hholds
        obtain ⟨_, -, -, hunder'⟩ := id houter
        exact Path.isUnder_of_length_le hunder' hunder (hmost other hother outer houter)
      · exact absurd (hfirst other hother directory hsame) (Nat.lt_irrefl _)

/-- There is one such space. -/
theorem IsDeepest.unique (h : IsDeepest root target spaces s)
    (h' : IsDeepest root target spaces s') : s = s' := by
  obtain @⟨directory, before, after, hspaces, hholds, hinnermost, hfirst⟩ := h
  obtain @⟨directory', before', after', hspaces', hholds', hinnermost', hfirst'⟩ := h'
  have hmem : s ∈ spaces := by simp [hspaces]
  have hmem' : s' ∈ spaces := by simp [hspaces']
  -- Each directory holds the other, so they are one.
  have hunder := hinnermost s' hmem' directory' hholds'
  have hunder' := hinnermost' s hmem directory hholds
  have hsame : directory = directory' := Path.eq_of_isUnder_of_length hunder'
    (Nat.le_antisymm (Path.length_le_of_isUnder hunder') (Path.length_le_of_isUnder hunder))
  subst hsame
  -- Neither space stands in front of the other.
  rw [hspaces] at hspaces'
  rcases List.append_eq_append_iff.1 hspaces' with ⟨between, rfl, hrest⟩ | ⟨between, rfl, hrest⟩
  · cases between with
    | nil => exact (List.cons_eq_cons.1 hrest).1
    | cons first between =>
        obtain ⟨rfl, -⟩ := List.cons_eq_cons.1 hrest
        exact absurd hholds (hfirst' _ (by simp))
  · cases between with
    | nil => exact (List.cons_eq_cons.1 hrest).1.symm
    | cons first between =>
        obtain ⟨rfl, -⟩ := List.cons_eq_cons.1 hrest
        exact absurd hholds' (hfirst _ (by simp))

/-! ## The space of a path -/

/-- A path and the directories of all spaces can be resolved; the path leads to `target`. -/
structure SpaceConfig.Resolves (c : SpaceConfig) (here p target : Path) : Prop where
  path : Path.resolve here p = .ok target
  layouts : ∀ s ∈ c.spaces, ∃ l, c.layout s = .ok l

variable {c : SpaceConfig} {here p : Path}

/-- What the search gives if everything can be resolved. -/
theorem findSpace_of_resolves (h : c.Resolves here p target) :
    findSpace c here p = .ok none ∧
        (∀ s ∈ c.spaces, ∀ directory, ¬ s.Holds c.root directory target) ∨
      ∃ s, findSpace c here p = .ok (some s) ∧ IsDeepest c.root target c.spaces s := by
  have hstart : Best c.root target [] none := .absent fun s hs => absurd hs List.not_mem_nil
  obtain ⟨best, hrun, hbest⟩ := deepestSpace_best hstart h.layouts
  rw [List.nil_append] at hbest
  have hfind : findSpace c here p = .ok (best.map (·.2)) := by
    unfold findSpace
    rw [h.path]
    exact hrun
  cases best with
  | none =>
      cases hbest with
      | absent hnone => exact .inl ⟨hfind, hnone⟩
  | some b => exact .inr ⟨b.2, hfind, hbest.isDeepest⟩

/-- What it gives otherwise. -/
theorem findSpace_eq_error (h : ∀ target, ¬ c.Resolves here p target) :
    findSpace c here p = .error .unusablePath := by
  unfold findSpace
  cases hpath : Path.resolve here p with
  | error fault => rfl
  | ok target =>
      have hmissing : ∃ s ∈ c.spaces, ∀ l, s.layout c.root ≠ .ok l := by
        by_contra hall
        push Not at hall
        exact h target ⟨hpath, hall⟩
      obtain ⟨s, hs, hlayout⟩ := hmissing
      exact deepestSpace_eq_error hs hlayout

/-- **The deepest space wins.**  A path has no space exactly if no templates directory holds it.
Otherwise its space is the one whose directory lies in, or is, every directory that holds the
path, and the first of those that share that directory.  Nothing fails but resolving the path or
the directories of a space. -/
theorem findSpace_deepest (c : SpaceConfig) (here p : Path) :
    (∀ cause, findSpace c here p = .error cause ↔
      cause = .unusablePath ∧ ∀ target, ¬ c.Resolves here p target) ∧
    (findSpace c here p = .ok none ↔ ∃ target, c.Resolves here p target ∧
      ∀ s ∈ c.spaces, ∀ directory, ¬ s.Holds c.root directory target) ∧
    ∀ s, findSpace c here p = .ok (some s) ↔
      ∃ target, c.Resolves here p target ∧ IsDeepest c.root target c.spaces s := by
  by_cases hresolves : ∃ target, c.Resolves here p target
  · obtain ⟨target, h⟩ := hresolves
    have htarget : ∀ other, c.Resolves here p other → other = target := by
      intro other hother
      exact Except.ok.inj (hother.path.symm.trans h.path)
    rcases findSpace_of_resolves h with ⟨hfind, hnone⟩ | ⟨found, hfind, hdeepest⟩
    · rw [hfind]
      refine ⟨fun cause => ⟨fun hcause => (nomatch hcause), fun hcause => ?_⟩,
        ⟨fun _ => ⟨target, h, hnone⟩, fun _ => rfl⟩, fun s => ⟨fun hs => (nomatch hs), ?_⟩⟩
      · exact absurd h (hcause.2 target)
      · rintro ⟨other, hother, hdeepest⟩
        obtain rfl := htarget other hother
        obtain ⟨hspaces, hholds, -, -⟩ := hdeepest
        exact absurd hholds (hnone s (by simp [hspaces]) _)
    · rw [hfind]
      refine ⟨fun cause => ⟨fun hcause => (nomatch hcause), fun hcause => ?_⟩,
        ⟨fun hnone => (nomatch hnone), ?_⟩, fun s => ⟨fun hs => ?_, ?_⟩⟩
      · exact absurd h (hcause.2 target)
      · rintro ⟨other, hother, hnone⟩
        obtain rfl := htarget other hother
        obtain ⟨hspaces, hholds, -, -⟩ := hdeepest
        exact absurd hholds (hnone found (by simp [hspaces]) _)
      · cases hs
        exact ⟨target, h, hdeepest⟩
      · rintro ⟨other, hother, hdeepest'⟩
        obtain rfl := htarget other hother
        rw [hdeepest.unique hdeepest']
  · have hnever : ∀ target, ¬ c.Resolves here p target := fun target h => hresolves ⟨target, h⟩
    rw [findSpace_eq_error hnever]
    refine ⟨fun cause => ⟨fun hcause => ?_, fun hcause => ?_⟩,
      ⟨fun hnone => (nomatch hnone), fun ⟨target, h, _⟩ => absurd h (hnever target)⟩,
      fun s => ⟨fun hs => (nomatch hs), fun ⟨target, h, _⟩ => absurd h (hnever target)⟩⟩
    · exact ⟨(Except.error.inj hcause).symm, hnever⟩
    · rw [hcause.1]

/-- A space in the templates of another, given in two ways: the first of the two inner ones has
what lies in both. -/
example :
    findSpace ⟨⟨.root, ["w"]⟩,
        [⟨"outer", ⟨.relative, ["a"]⟩, ⟨.relative, ["d"]⟩⟩,
          ⟨"inner", ⟨.relative, ["a", "c", "..", "b"]⟩, ⟨.relative, ["d"]⟩⟩,
          ⟨"again", ⟨.root, ["w", "a", "b"]⟩, ⟨.relative, ["d"]⟩⟩], none, false, none⟩
      ⟨.root, ["w"]⟩ ⟨.relative, ["a", "b", "pages", "x.tmpl"]⟩ =
        .ok (some ⟨"inner", ⟨.relative, ["a", "c", "..", "b"]⟩, ⟨.relative, ["d"]⟩⟩) := by
  decide

end Folio
