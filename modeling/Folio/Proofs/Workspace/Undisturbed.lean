import Folio.Proofs.Output.Frame
import Folio.Proofs.Output.Rebuilding
import Folio.Proofs.Workspace.Mirror

/-!
# What the build of a space depends on

`l.Undisturbed t t'` says that two trees are the same to a space: among its templates, in
its output and at the shared stylesheet, and that files are in the way to its output in
both or in neither.  What another space does elsewhere in the tree keeps this.

A build of the space from such a tree compares with the build that is alone, from the
tree there was at first; so it does when the space has been built before and finds what
it has left itself (`Tracked.build`).  It is set aside that the build that is alone fails
because a name is too long: that depends on directories anywhere.
-/

namespace Folio

open FileTree Folio.Action

variable {l : Layout} {t t' t'' w w' : FileTree} {p q : Place}

/-! ## Places that have nothing to do with each other -/

/-- Two places of which neither lies in the other. -/
def Unrelated (p q : Place) : Prop :=
  ¬ p <+: q ∧ ¬ q <+: p

namespace Unrelated

theorem below {r : Place} (h : Unrelated p q) (hr : q <+: r) : Unrelated p r :=
  ⟨fun hstarts => (List.prefix_or_prefix_of_prefix hstarts hr).elim h.1 h.2,
    fun hstarts => h.2 (hr.trans hstarts)⟩

theorem of_sibling {above : Place} {name other : String} (hne : name ≠ other) :
    Unrelated (above ++ [sentinelName, name]) (above ++ [sentinelName, other]) := by
  constructor
  all_goals
    intro hstarts
    have hsame := hstarts.eq_of_length (by simp)
    simp [hne, hne.symm] at hsame

end Unrelated

/-- Two trees that differ only at and below some places, and in directories that were
made on the way there. -/
def DiffersAt (places : List Place) (t t' : FileTree) : Prop :=
  ∀ q, (∀ p ∈ places, ¬ p <+: q) → t'.entry? q = t.entry? q ∨
    (∃ p ∈ places, q <+: p) ∧ t.entry? q = none ∧ t'.entry? q = some .directory

theorem DiffersAt.entry?_eq {places : List Place} (h : DiffersAt places t t')
    (hq : ∀ p ∈ places, Unrelated p q) : t.entry? q = t'.entry? q := by
  rcases h q fun p hp => (hq p hp).1 with hsame | ⟨⟨p, hp, hway⟩, -⟩
  · exact hsame.symm
  · exact absurd hway (hq p hp).2

theorem Contained.differsAt (h : Contained l t t') : DiffersAt [l.output.parts] t t' := by
  intro q hq
  have houtput := hq _ (List.mem_singleton_self _)
  rcases h.frames q fun howned => houtput howned.output_isPrefix with
    hsame | ⟨hway, hnone, hmade⟩ | ⟨-, hstray⟩
  · exact .inl hsame
  · exact .inr ⟨⟨_, List.mem_singleton_self _, hway⟩, hnone, hmade⟩
  · exact absurd hstray.output_isPrefix houtput

theorem Copied.differsAt (h : Copied l t t') :
    DiffersAt [l.pagesCopy, l.stylesheetCopy] t t' := by
  intro q hq
  obtain ⟨hpages, hstyles⟩ := List.forall_mem_cons.1 hq
  refine (h.entry?_or q hpages ?_).imp_right fun ⟨hway, hmade⟩ =>
    ⟨⟨_, List.mem_cons_self, hway⟩, hmade⟩
  rintro rfl
  exact hstyles _ (List.mem_singleton_self _) List.prefix_rfl

/-! ## What a space depends on -/

/-- The places that the build of a space looks at for what is there. -/
inductive Layout.Concerns (l : Layout) : Place → Prop
  | template {q : Place} (hq : l.templates.parts <+: q) : l.Concerns q
  | output {q : Place} (hq : l.output.parts <+: q) : l.Concerns q
  | stylesheet : l.Concerns l.sharedStylesheet.parts

/-- Two trees that are the same to a space: at the places that concern it, and in where
files are in the way to its output. -/
structure Layout.Undisturbed (l : Layout) (t t' : FileTree) : Prop where
  entry?_eq : ∀ q, l.Concerns q → t.entry? q = t'.entry? q
  isFile_iff : ∀ q, q <+: l.output.parts → (t.IsFile q ↔ t'.IsFile q)

namespace Layout.Undisturbed

theorem refl (t : FileTree) : l.Undisturbed t t :=
  ⟨fun _ _ => rfl, fun _ _ => Iff.rfl⟩

theorem trans (h : l.Undisturbed t t') (h' : l.Undisturbed t' t'') : l.Undisturbed t t'' where
  entry?_eq q hq := (h.entry?_eq q hq).trans (h'.entry?_eq q hq)
  isFile_iff q hq := (h.isFile_iff q hq).trans (h'.isFile_iff q hq)

/-- Trees with directories all the way to the output of a space. -/
theorem of_directories (hsame : ∀ q, l.Concerns q → w.entry? q = w'.entry? q)
    (hway : ∀ q, q <+: l.output.parts →
      w.entry? q = some .directory ∧ w'.entry? q = some .directory) : l.Undisturbed w w' where
  entry?_eq := hsame
  isFile_iff q hq := by
    unfold FileTree.IsFile
    rw [(hway q hq).1, (hway q hq).2]

end Layout.Undisturbed

/-! ## A build beside the one that is alone -/

/-- Of a build that is alone it is set aside that a name is too long, and of the other
one every failure. -/
def Lost.alone : Lost Failure :=
  ⟨(· = tooLong), fun _ => True⟩

section

variable (hl : l.WellFormed) (hw : l.workspace.IsPlain) (hapart : l.Apart) (ht : t.WellFormed)
  (hinside : l.RefersInside t)

include hl ht in
theorem conventional_alike (ht' : t'.WellFormed)
    (hsource : ∀ q, l.templates.parts <+: q → t.entry? q = t'.entry? q) :
    ∀ p ∈ l.conventional, Alike Lost.alone.ofFaults (t.isDirectory p) (t'.isDirectory p) := by
  intro p hp
  obtain ⟨hcanonical, name, hparts⟩ := conventional_eq hl hp
  have hmatched : Matched .alone t t' := .inr ⟨rfl, trivial⟩
  exact hmatched.isDirectory_alike ht ht' hcanonical
    (hsource _ (hparts ▸ List.prefix_append ..))

include hl ht hinside in
/-- The first build of a space. -/
theorem Layout.Undisturbed.comparable (h : l.Undisturbed t t') (ht' : t'.WellFormed) :
    Comparable l .alone t t' where
  left := ht
  right := ht'
  source_eq q hq := h.entry?_eq q (.template hq)
  way := .inr ⟨h.isFile_iff, .inl fun _ => trivial⟩
  renewed directory hdirectory := by
    unfold FileTree.IsFile
    rw [h.entry?_eq _ (.output hdirectory.output_isPrefix)]
  beside name _ := by rw [h.entry?_eq _ (.output (List.prefix_append ..))]
  matched := .inr ⟨rfl, trivial⟩
  conventional := conventional_alike hl ht ht' fun q hq => h.entry?_eq q (.template hq)
  inside := hinside
  styled := .inr fun _ _ => h.entry?_eq _ .stylesheet

include hl hw hapart ht hinside in
/-- A later build, which meets what the first one left. -/
theorem BuiltAlike.comparable_again (hbuilt : BuiltAlike l t t w w) (h : l.Undisturbed w t')
    (ht' : t'.WellFormed) : Comparable l .alone t t' := by
  have hsource : ∀ q, l.templates.parts <+: q → t.entry? q = t'.entry? q := fun q hq =>
    (hbuilt.entry?_template hapart hq).symm.trans (h.entry?_eq q (.template hq))
  exact comparable_of_built hl hw hapart ht hinside hbuilt ht'
    (fun q hq => (h.entry?_eq q (.output hq)).symm) hsource (.inr ⟨rfl, trivial⟩)
    (conventional_alike hl ht ht' hsource) fun _ _ => (h.entry?_eq _ .stylesheet).symm

end

namespace BuiltAlike

/-- Builds that began in trees which are the same to a space leave such trees. -/
theorem undisturbed (h : BuiltAlike l t t' w w') (hsame : l.Undisturbed t t') :
    l.Undisturbed w w' := by
  refine .of_directories (fun q hq => ?_) fun _ => h.directory_output
  obtain ⟨hu, hu', hfinished⟩ := h
  refine hfinished.entry?_eq ?_
  by_cases houtput : l.IsOutput q
  · exact hu.entry?_isOutput hu' houtput
  · by_cases hway : q <+: l.output.parts
    · rw [hu.entry?_output hway, hu'.entry?_output hway]
    · rw [hu.entry?_of_not_isOutput houtput hway, hu'.entry?_of_not_isOutput houtput hway]
      exact hsame.entry?_eq q hq

/-- A build that meets what the first one left leaves the same to the space. -/
theorem undisturbed_again (h : BuiltAlike l t t' w w') (hsame : l.Undisturbed w t') :
    l.Undisturbed w w' :=
  .of_directories (fun q hq =>
    (entry?_of_rebuilt h fun _ _ => (hsame.entry?_eq q hq).symm).symm) fun _ => h.directory_output

end BuiltAlike

/-! ## What became of a space -/

variable {space : Space} {titleSuffix : String} {session : Session} {r r' : SpaceResult}

/-- The build of a space from a session, alone. -/
abbrev aloneRun (l : Layout) (space : Space) (titleSuffix : String) (session : Session) :
    Except Failure SpaceResult × Session :=
  (buildSpace space l titleSuffix).run.run session

/-- In a tree a space has been built with the result `r`, and the tree is to the space as
the build that is alone leaves it, unless this fails for a name that is too long. -/
inductive Settled (l : Layout) (space : Space) (titleSuffix : String) (session : Session)
    (r : SpaceResult) (t : FileTree) : Prop
  | lost {first : Session}
      (halone : aloneRun l space titleSuffix session = (.error tooLong, first))
      (hsource : ∀ q, l.templates.parts <+: q → session.files.entry? q = t.entry? q)
  | built {first : Session} (halone : aloneRun l space titleSuffix session = (.ok r, first))
      (hsame : l.Undisturbed first.files t)

/-- In a tree a space has not been built, and all is to it as in the beginning, or it has
been built. -/
inductive Tracked (l : Layout) (space : Space) (titleSuffix : String) (session : Session)
    (t : FileTree) : Prop
  | unbuilt (hsame : l.Undisturbed session.files t)
  | settled {r : SpaceResult} (h : Settled l space titleSuffix session r t)

theorem Settled.undisturbed (h : Settled l space titleSuffix session r t)
    (hsame : l.Undisturbed t t') : Settled l space titleSuffix session r t' := by
  cases h with
  | lost halone hsource =>
      exact .lost halone fun q hq => (hsource q hq).trans (hsame.entry?_eq q (.template hq))
  | built halone h => exact .built halone (h.trans hsame)

theorem Tracked.undisturbed (h : Tracked l space titleSuffix session t)
    (hsame : l.Undisturbed t t') : Tracked l space titleSuffix session t' := by
  cases h with
  | unbuilt h => exact .unbuilt (h.trans hsame)
  | settled h => exact .settled (h.undisturbed hsame)

/-- A space that has been built more than once has one result. -/
theorem Settled.unique (h : Settled l space titleSuffix session r t)
    (h' : Settled l space titleSuffix session r' t') :
    Settled l space titleSuffix session r' t := by
  cases h with
  | lost halone hsource => exact .lost halone hsource
  | built halone hsame =>
      cases h' with
      | lost halone' => cases halone.symm.trans halone'
      | built halone' =>
          cases halone.symm.trans halone'
          exact .built halone hsame

section

variable (hl : l.WellFormed) (hw : l.workspace.IsPlain) (hapart : l.Apart)
  (hfiles : session.files.WellFormed) (hinside : l.RefersInside session.files)

include hl hw hapart hfiles hinside

theorem builtAlike_of_aloneRun {first : Session}
    (halone : aloneRun l space titleSuffix session = (.ok r, first)) :
    BuiltAlike l session.files session.files first.files first.files :=
  builtAlike_of_run hl hw hapart hfiles hinside halone

theorem Tracked.source_eq (h : Tracked l space titleSuffix session t) {q : Place}
    (hq : l.templates.parts <+: q) : session.files.entry? q = t.entry? q := by
  cases h with
  | unbuilt h => exact h.entry?_eq q (.template hq)
  | settled h =>
      cases h with
      | lost _ hsource => exact hsource q hq
      | built halone hsame =>
          have hbuilt := builtAlike_of_aloneRun hl hw hapart hfiles hinside halone
          exact (hbuilt.entry?_template hapart hq).symm.trans (hsame.entry?_eq q (.template hq))

omit hfiles hinside in
/-- What the build that is alone comes to, beside one that gives a result. -/
theorem aloneRun_of_comparable (hcomparable : Comparable l .alone session.files t)
    {log : List Record} {next : Session}
    (hrun : aloneRun l space titleSuffix ⟨t, log⟩ = (.ok r, next)) :
    (∃ first, aloneRun l space titleSuffix session = (.error tooLong, first)) ∨
      ∃ first, aloneRun l space titleSuffix session = (.ok r, first) ∧
        BuiltAlike l session.files t first.files next.files := by
  rcases parallel_buildSpace hl hw hapart hcomparable session.log log space titleSuffix with
    ⟨hleft, hright, hbuilt, -⟩ | ⟨-, hright, -⟩ | ⟨rfl, hleft⟩ | ⟨-, hright⟩
  · cases hrun.symm.trans hright
    exact .inr ⟨_, hleft, hbuilt⟩
  · cases hrun.symm.trans hright
  · exact .inl ⟨_, hleft⟩
  · cases hrun.symm.trans hright

/-- A build of a space that gives a result settles it. -/
theorem Tracked.build (h : Tracked l space titleSuffix session t) (ht : t.WellFormed)
    {log : List Record} {next : Session}
    (hrun : aloneRun l space titleSuffix ⟨t, log⟩ = (.ok r, next)) :
    next.files.WellFormed ∧ Settled l space titleSuffix session r next.files := by
  have hsource : ∀ q, l.templates.parts <+: q → session.files.entry? q = t.entry? q :=
    fun q hq => h.source_eq hl hw hapart hfiles hinside hq
  have hnext : BuiltAlike l t t next.files next.files :=
    builtAlike_of_run hl hw hapart ht (hinside.of_source hfiles ht hsource) hrun
  have hlost : ∀ {first}, aloneRun l space titleSuffix session = (.error tooLong, first) →
      Settled l space titleSuffix session r next.files := fun halone =>
    .lost halone fun q hq => (hsource q hq).trans (hnext.entry?_template hapart hq).symm
  refine ⟨hnext.wellFormed, ?_⟩
  cases h with
  | unbuilt hsame =>
      have hcomparable := hsame.comparable hl hfiles hinside ht
      rcases aloneRun_of_comparable hl hw hapart hcomparable hrun with
        ⟨first, halone⟩ | ⟨first, halone, hbuilt⟩
      · exact hlost halone
      · exact .built halone (hbuilt.undisturbed hsame)
  | settled h =>
      cases h with
      | lost halone => exact hlost halone
      | built halone hsame =>
          have hfirst := builtAlike_of_aloneRun hl hw hapart hfiles hinside halone
          have hcomparable := hfirst.comparable_again hl hw hapart hfiles hinside hsame ht
          rcases aloneRun_of_comparable hl hw hapart hcomparable hrun with
            ⟨first, halone'⟩ | ⟨first, halone', hbuilt⟩
          · exact hlost halone'
          · cases halone.symm.trans halone'
            exact .built halone' (hbuilt.undisturbed_again hsame)

end

end Folio
