import Folio.Proofs.Output.Jobs

/-!
# A build from start to end

The phases of a build follow one another: the directories are emptied, the pages are
rendered and copied, the components are shown, and the index and the stylesheet are
written last.  `Whole` gathers what they leave.
-/

namespace Folio

open Text FileTree

variable {l : Layout} {t₀ t : FileTree} {written : List Place}
  {recorded : List (String × ManifestEntry)} {r : BuildResult} {s : Stage}

/-! ## The index and the stylesheet -/

/-- The place of the index as a page. -/
def Layout.indexPage (l : Layout) : Place :=
  l.componentsOut.parts ++ ["index.html"]

/-- The place of the index as data. -/
def Layout.indexData (l : Layout) : Place :=
  l.componentsOut.parts ++ ["index.json"]

/-- What became of the sources of a build. -/
structure Ledger where
  rendered : List Path
  unrendered : List Path
  copied : List Path
  uncopied : List Path
  shown : List Preview
  unshown : List Preview

/-- The places that the outputs of a build take. -/
def Ledger.places (g : Ledger) (l : Layout) : List Place :=
  (g.rendered.map fun p => (l.pageOut p).parts) ++ (g.copied.map fun p => (l.copyOut p).parts) ++
    g.shown.map (·.place l)

/-- What a whole build leaves. -/
structure Whole (l : Layout) (t₀ : FileTree) (g : Ledger) (r : BuildResult) (s : Stage) :
    Prop where
  nodup_pages : (g.rendered ++ g.unrendered).Nodup
  mem_pages : ∀ p, p ∈ g.rendered ++ g.unrendered ↔ IsSource t₀ l.pages templateSuffix p
  nodup_statics : (g.copied ++ g.uncopied).Nodup
  mem_statics : ∀ p, p ∈ g.copied ++ g.uncopied ↔
    IsSource t₀ l.pages outputSuffix p ∧ ∀ q ∈ g.rendered, l.pageName q ≠ p.textBelow l.pages
  nodup_previews : (g.shown ++ g.unshown).Nodup
  mem_previews : ∀ p, p ∈ g.shown ++ g.unshown ↔ IsPreview l t₀ p
  failures : ∃ others, r.failures = g.unrendered ++ g.uncopied ++ others ∧ ∀ p, p ∈ others ↔
    IsSource t₀ l.components templateSuffix p ∧ IsUnreadable t₀ p ∨
      ∃ q ∈ g.unshown, q.target l = p
  counts : r.pagesRendered = g.rendered.length ∧ r.pagesCopied = g.copied.length ∧
    r.previews = g.shown.length
  links_eq : r.index.flatMap (·.states) = g.shown.map (·.link l)
  records : ∃ items items', List.Forall₂ (RecordsPage l) g.rendered items ∧
    List.Forall₂ (RecordsPreview l) g.shown items' ∧ s.manifest.Records (items ++ items')
  disk : ∃ added, added ⊆ [l.indexPage, l.indexData, l.stylesheetOut.parts] ∧
    Disk l t₀ (g.places l ++ added) s.session.files

end Folio
