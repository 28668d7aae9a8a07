import Folio.Proofs.Output.Previews
import Folio.Proofs.Output.Renderings
import Folio.Proofs.Path.Links

/-!
# Links to the stylesheet

Every page and every preview is given a link to the stylesheet of its space.  The stylesheet
stands in the output directory, the pages as deep below it as their templates are among the
pages, the previews in a directory named after their component, and that name may be `..`.

The law of links (`Path.absolute_relativeHref`) covers them all: it asks for two paths from the
root, and for nothing else of the directory that the link is in.  What is left is to see that the
directory is that of the file which is written in the end.  `PrintedTo` is what one call of
`writePage` does; a page and a preview are described by what they were given, what came of it, and
the file that it was printed to.
-/

namespace Folio

open Text FileTree

variable {l : Layout} {t : FileTree} {page target : Path} {s : Stage}

/-! ## Printing -/

end Folio
