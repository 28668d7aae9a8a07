import Folio.Manifest
import Folio.Proofs.FileTree.Listing
import Folio.Proofs.Output.Targets
import Folio.Proofs.Output.Writes

/-!
# Edits that stay in the output

The output of a space owns two directories with all below them and three files.  All
else is left as it is by a build, but for directories on the way to the output that
were missing, and for one thing that goes astray: where a component's file is named
`..` once its ending is dropped, the previews of the component land beside the
directory for previews.

`Contained l t₀ t` says that `t` was made from `t₀` by such edits.  Each kind of edit
that a build makes keeps it.
-/

namespace Folio

open Text FileTree

namespace Layout

variable {l : Layout} {place : Place}

/-- The directories of a space, as paths from the root with names that files can have. -/
structure WellFormed (l : Layout) : Prop where
  templates : l.templates.IsPlain
  output : l.output.IsPlain

/-- The roots of the templates are such paths, too. -/
theorem WellFormed.rootOf (hl : l.WellFormed) (kind : RootKind) : (l.rootOf kind).IsPlain := by
  have hname : IsFileName kind.directory := by
    cases kind <;> decide
  unfold Layout.rootOf
  rw [Path.joinText_name hname]
  exact hl.templates.below fun n hn => List.mem_singleton.1 hn ▸ hname

/-- The least layout: the directories are in the root, which is the workspace. -/
def small : Layout :=
  ⟨Path.top, ⟨.root, ["t"]⟩, ⟨.root, ["d"]⟩⟩

theorem wellFormed_small : small.WellFormed :=
  ⟨⟨rfl, by decide⟩, ⟨rfl, by decide⟩⟩

/-- The places that a build may change as it likes. -/
def Owns (l : Layout) (place : Place) : Prop :=
  l.pagesOut.parts <+: place ∨ l.componentsOut.parts <+: place ∨
    place = l.stylesheetOut.parts ∨ place = (l.output / Manifest.fileName).parts ∨
    place = (l.output / Manifest.canvasFileName).parts

/-- A component among the components themselves whose previews go up a directory. -/
def HasUpComponent (l : Layout) (t : FileTree) : Prop :=
  ∃ name content text, IsUpName name ∧
    t.entry? (l.components.parts ++ [name]) = some (.file content) ∧
    textOf content = some text ∧ (Source.firstMacroName? text).isSome

/-- The places beside the directory for previews where previews can land. -/
def IsStray (l : Layout) (place : Place) : Prop :=
  ∃ state, isStateName state ∧ place = l.output.parts ++ [state ++ outputSuffix]

/-- `t` differs from `t₀` only where a build of the space may change something. -/
def Frames (l : Layout) (t₀ t : FileTree) : Prop :=
  ∀ place, ¬ l.Owns place →
    t.entry? place = t₀.entry? place ∨
    (place <+: l.output.parts ∧ t₀.entry? place = none ∧ t.entry? place = some .directory) ∨
    (l.HasUpComponent t₀ ∧ l.IsStray place)

theorem pagesOut_eq : l.pagesOut = ⟨l.output.anchor, l.output.parts ++ ["pages"]⟩ :=
  Path.joinText_name (by decide)

theorem componentsOut_eq : l.componentsOut = ⟨l.output.anchor, l.output.parts ++ ["components"]⟩ :=
  Path.joinText_name (by decide)

theorem parts_componentsOut : l.componentsOut.parts = l.output.parts ++ ["components"] := by
  rw [componentsOut_eq]

theorem stylesheetOut_eq :
    l.stylesheetOut = ⟨l.output.anchor, l.output.parts ++ [stylesheetName]⟩ :=
  Path.joinText_name (by decide)

theorem isPlain_stylesheetOut (hl : l.WellFormed) : l.stylesheetOut.IsPlain := by
  have hname : IsFileName stylesheetName := by decide
  rw [stylesheetOut_eq]
  exact hl.output.below fun n hn => List.mem_singleton.1 hn ▸ hname

theorem Owns.of_componentsOut (names : List String) : l.Owns (l.componentsOut.parts ++ names) :=
  Or.inr (Or.inl (List.prefix_append ..))

theorem Owns.output_isPrefix (h : l.Owns place) : l.output.parts <+: place := by
  have hbelow : ∀ {p : Path} {name : String}, p = ⟨l.output.anchor, l.output.parts ++ [name]⟩ →
      l.output.parts <+: p.parts := by
    rintro p name rfl
    exact List.prefix_append ..
  have hmanifest : IsFileName Manifest.fileName := by decide
  have hcanvas : IsFileName Manifest.canvasFileName := by decide
  rcases h with h | h | rfl | rfl | rfl
  · exact (hbelow pagesOut_eq).trans h
  · exact (hbelow componentsOut_eq).trans h
  · exact hbelow stylesheetOut_eq
  · exact hbelow (Path.joinText_name hmanifest)
  · exact hbelow (Path.joinText_name hcanvas)

theorem IsStray.output_isPrefix (h : l.IsStray place) : l.output.parts <+: place := by
  obtain ⟨state, -, rfl⟩ := h
  exact List.prefix_append ..

/-- What lies on the way to a place below an output directory is on the way to the
output, or owned. -/
theorem owns_or_isPrefix {name : String} {names : List String}
    (hplace : place <+: l.output.parts ++ [name] ++ names)
    (howned : ∀ q, l.output.parts ++ [name] <+: q → l.Owns q) :
    l.Owns place ∨ place <+: l.output.parts := by
  rcases List.prefix_or_prefix_of_prefix hplace (List.prefix_append ..) with h | h
  · rcases List.prefix_concat_iff.1 h with h | h
    · exact Or.inl (howned place (h ▸ List.prefix_rfl))
    · exact Or.inr h
  · exact Or.inl (howned place h)

end Layout

/-! ## What edits keep -/

/-- A tree made from `t₀` by edits that stay in the output: the names in it can be
those of files, and no file that makes previews go up was added. -/
structure Contained (l : Layout) (t₀ t : FileTree) : Prop where
  named : t.Named
  frames : l.Frames t₀ t
  up_eq : ∀ above name content, IsUpName name →
    t.entry? (above ++ [name]) = some (.file content) →
    t₀.entry? (above ++ [name]) = some (.file content)

namespace Contained

variable {l : Layout} {t₀ t t' : FileTree} {place : Place} {names : Place}

theorem refl (ht : t₀.Named) : Contained l t₀ t₀ :=
  ⟨ht, fun _ _ => Or.inl rfl, fun _ _ _ _ h => h⟩

/-- A directory may be put where nothing was, in the output or on the way to it. -/
theorem putDirectory (h : Contained l t₀ t) (hnames : ∀ name ∈ place, IsFileName name)
    (hplace : l.Owns place ∨ place <+: l.output.parts) (hnone : t.entry? place = none) :
    Contained l t₀ (t.put place .directory) := by
  refine ⟨named_put h.named hnames, fun q hq => ?_,
    fun above name content hup hentry => ?_⟩
  · rw [entry?_put]
    by_cases hroot : q = []
    · subst hroot
      exact Or.inl rfl
    · rw [if_neg hroot]
      by_cases hsame : q = place
      · subst hsame
        rw [if_pos rfl]
        rcases h.frames q hq with heq | ⟨_, _, hdirectory⟩ | hstray
        · exact Or.inr (Or.inl ⟨hplace.resolve_left hq, heq ▸ hnone, rfl⟩)
        · rw [hnone] at hdirectory
          cases hdirectory
        · exact Or.inr (Or.inr hstray)
      · rw [if_neg hsame]
        exact h.frames q hq
  · rw [entry?_put] at hentry
    split at hentry
    · cases hentry
    · split at hentry
      · cases hentry
      · exact h.up_eq above name content hup hentry

theorem addsDirectories (h : Contained l t₀ t) (hadds : AddsDirectories names t t')
    (hnames : ∀ name ∈ names, IsFileName name)
    (hplace : ∀ place, place <+: names → l.Owns place ∨ place <+: l.output.parts) :
    Contained l t₀ t' :=
  hadds.keeps h fun ht hstarts hnone =>
    ht.putDirectory (fun name hname => hnames name (hstarts.subset hname)) (hplace _ hstarts) hnone

/-- A file may be put in the output, or beside its directories for a component that
goes up, unless it is itself a component that goes up. -/
theorem putFile (h : Contained l t₀ t) {content : ByteArray}
    (hnames : ∀ name ∈ place, IsFileName name)
    (hplace : l.Owns place ∨ l.HasUpComponent t₀ ∧ l.IsStray place)
    (hlast : ∀ above name, place = above ++ [name] → ¬ IsUpName name) :
    Contained l t₀ (t.put place (.file content)) := by
  refine ⟨named_put h.named hnames, fun q hq => ?_,
    fun above name other hup hentry => ?_⟩
  · rw [entry?_put]
    by_cases hroot : q = []
    · subst hroot
      exact Or.inl rfl
    · rw [if_neg hroot]
      by_cases hsame : q = place
      · subst hsame
        exact Or.inr (Or.inr (hplace.resolve_left hq))
      · rw [if_neg hsame]
        exact h.frames q hq
  · rw [entry?_put] at hentry
    split at hentry
    · cases hentry
    · split at hentry
      · rename_i hsame
        exact absurd hup (hlast _ _ hsame.symm)
      · exact h.up_eq above name other hup hentry

theorem prune (h : Contained l t₀ t) (hplace : ∀ q, place <+: q → l.Owns q) :
    Contained l t₀ (t.prune place) := by
  refine ⟨named_prune h.named, fun q hq => ?_,
    fun above name content hup hentry => ?_⟩
  · rw [entry?_prune]
    by_cases hroot : q = []
    · subst hroot
      exact Or.inl rfl
    · rw [if_neg hroot, if_neg fun hstarts => hq (hplace q hstarts)]
      exact h.frames q hq
  · rw [entry?_prune] at hentry
    split at hentry
    · cases hentry
    · split at hentry
      · cases hentry
      · exact h.up_eq above name content hup hentry

theorem writesFile (h : Contained l t₀ t) (hwrites : WritesFile names place t t')
    (hdirectory : ∀ name ∈ names, IsFileName name)
    (hway : ∀ q, q <+: names → l.Owns q ∨ q <+: l.output.parts)
    (hnames : (∀ name ∈ place, Path.isUsable name) → ∀ name ∈ place, IsFileName name)
    (hplace : l.Owns place ∨ l.HasUpComponent t₀ ∧ l.IsStray place)
    (hlast : ∀ above name, place = above ++ [name] → ¬ IsUpName name) :
    Contained l t₀ t' := by
  obtain ⟨husable, t₁, content, hadds, -, rfl⟩ := hwrites
  exact (h.addsDirectories hadds hdirectory hway).putFile (hnames husable) hplace hlast

end Contained

end Folio
