import Folio.Proofs.Output.Relationships
import Folio.Proofs.Output.Renderings

/-!
# Keys and output paths

What a page is called is computed twice.  The build takes as many characters off the end of a
template's path as the ending of templates has, whatever these are, and adds the ending of pages.
The key in the manifest is found from the file's resolved path, by looking for a known ending in
the lower case of the text.

The two agree because a text that has an ending in some case has as many characters there as the
ending has (`Text.exists_of_hasSuffix`), though the lower case of the rest may be longer than the
rest; and because no text has two known endings.
-/

namespace Folio

open Text FileTree

variable {l : Layout} {t : FileTree} {page : Path} {s : Stage}

/-! ## Endings of pages -/

theorem IsSource.isCanonical {suffix : String} (h : IsSource t l.pages suffix page)
    (hl : l.WellFormed) (ht : t.Named) : page.IsCanonical := by
  obtain ⟨names, last, hnames, -, rfl, -⟩ := h.exists_names ht
  exact ((hl.rootOf .page).below hnames).isCanonical

end Folio
