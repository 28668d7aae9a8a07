import Folio.Build
import Folio.Proofs.Output.Steps
import Folio.Proofs.Session.Faults

/-!
# How the build of a space can fail

No step of a build complains about the declaration of spaces: whether it prepares the
output, renders a page, shows a component, writes the manifest or copies what was built,
it fails as building does, if it fails at all.
-/

namespace Folio

open Text Folio.Action

/-! ## Steps -/

namespace Step

variable {α β : Type}

end Step

/-! ## Writing output -/

end Folio
