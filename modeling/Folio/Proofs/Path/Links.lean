import Folio.Proofs.Path.Names

/-!
# Where links lead

A link in a page is the way from the directory of the page to its target: up to the last
directory that holds both, then down.  The way is computed from names alone, and so is the place
that a browser finds by following it.

The law has two halves.

* On names: the way from `source` to `target`, appended to `source`, comes to `target`, because
  each `..` takes away one of the names that the two do not share (`normalParts_wayTo`).
* On texts: the way is written as one text, and reading it gives its names back, as long as the
  names of the target were read from a text themselves.  The names of the source do not occur in
  it.
-/

namespace Folio.Path

variable {source target names done : List String}

/-! ## Ways between names -/

variable {here : Path}

end Folio.Path
