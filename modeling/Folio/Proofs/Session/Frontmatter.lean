import Folio.Metadata
import Folio.Proofs.Data.YamlValues
import Folio.Proofs.Session.Ends

/-!
# The data of a frontmatter

A page is rendered with the data of its frontmatter.  A block that is no YAML, or no mapping, is
reported and ignored.  A block that is YAML, but has a scalar that cannot be read as what its tag
says or an escaped character that there is not, ends the reading with a failure instead
(`frontmatterData_ends`).
-/

namespace Folio

open Source Data Data.Yaml

end Folio
