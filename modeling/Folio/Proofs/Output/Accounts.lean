import Folio.Proofs.Output.Pages
import Folio.Proofs.Scan.Step

/-!
# Every page is accounted for

A template among the pages that cannot be rendered is noted, and rendering goes on.  So
each is either noted as failed or rendered and recorded, unless something ends the build:
a directory of the output cannot be made, or what a rendered page says of itself cannot be
found out, since that is not guarded.

Nothing is assumed here of where the output lies.  Rendering writes no templates, and this
is all that is needed (`KeepsTemplates`).
-/

namespace Folio

open Text FileTree

variable {l : Layout} {t₀ t t' : FileTree} {page : Path} {s : Stage}

/-! ## What a search finds -/

/-- What was found so far starts at the root and goes down only. -/
def Search.IsCanonical (search : Search) : Prop :=
  ∀ kind, kind ≠ .page → ∀ p ∈ search.found.ofKind kind, p.IsCanonical

namespace Manifest

/-- Names of components are found, whatever is in their files. -/
theorem componentRefs_of_canonical (m : Manifest) {paths : List Path}
    (hpaths : ∀ p ∈ paths, p.IsCanonical) :
    ∃ refs m', m.componentRefs t paths = .ok (refs, m') ∧ refs.map (·.path) = paths := by
  induction paths generalizing m with
  | nil => exact ⟨[], m, rfl, rfl⟩
  | cons p rest ih =>
      obtain ⟨hp, hrest⟩ := List.forall_mem_cons.1 hpaths
      obtain ⟨name, m₁, hname⟩ : ∃ name m₁, m.componentName t p = .ok (name, m₁) := by
        unfold componentName
        split
        · exact ⟨_, _, rfl⟩
        · obtain ⟨name, hname⟩ : ∃ name, nameOf t p = .ok name := by
            unfold nameOf
            cases hread : t.readText p with
            | ok text => exact ⟨_, rfl⟩
            | error cause => exact ⟨_, if_pos (isReadFault_of_readText hp hread)⟩
          rw [hname]
          exact ⟨_, _, rfl⟩
      obtain ⟨refs, m₂, hrefs, hpaths⟩ := ih m₁ hrest
      refine ⟨⟨name, p⟩ :: refs, m₂, ?_, congrArg (p :: ·) hpaths⟩
      unfold componentRefs
      rw [hname]
      simp only [bind, Except.bind, hrefs]
      rfl

end Manifest

/-- What the manifest has for a page: what was found about it in a tree. -/
def EntryOf (l : Layout) (t : FileTree) (page : Path) (text : List Char)
    (entry : ManifestEntry) : Prop :=
  ∃ d relationships, (scan l page).outcome t = .ok d ∧
    (pageRelationships l page text).outcome t = .ok relationships ∧
    entry.page = some ⟨page.stem, page⟩ ∧
    entry.components.map (·.path) = Path.sortDistinct d.components ∧
    entry.elements = Manifest.elementRefs d ∧
    entry.relationships = (if relationships.isInhabited then
      some (Source.Relation.all.map fun r => (r.name, relationships.get r)) else none) ∧
    entry.tags = (Source.tags text).map String.ofList

/-- What ends as pages do has the ending of pages. -/
theorem hasSuffix_of_suffix {s : List Char} (hwritten : outputSuffix.toList <:+ s) :
    hasSuffix outputSuffix s := by
  have hending : ∀ before, lowerAfter before outputSuffix.toList = outputSuffix.toList :=
    fun _ => rfl
  obtain ⟨front, rfl⟩ := hwritten
  obtain ⟨front', hfront⟩ := lowerAfter_append [] front outputSuffix.toList
  unfold hasSuffix
  rw [List.isSuffixOf_iff_suffix]
  rw [hending] at hfront
  exact ⟨front', hfront.symm⟩

/-- A page has the ending of pages. -/
theorem hasSuffix_renderedName (rel : String) :
    hasSuffix outputSuffix (renderedName rel).toList := by
  unfold renderedName
  rw [String.toList_append]
  exact hasSuffix_of_suffix (List.suffix_append ..)

/-- A tree in which the templates of another one stand as they did. -/
def KeepsTemplates (t₀ t : FileTree) : Prop :=
  ∀ above name content, hasSuffix templateSuffix name.toList →
    t₀.entry? (above ++ [name]) = some (.file content) →
    t.entry? (above ++ [name]) = some (.file content)

namespace KeepsTemplates

variable {names : Place}

theorem refl (t : FileTree) : KeepsTemplates t t := fun _ _ _ _ h => h

theorem addsDirectories (h : KeepsTemplates t₀ t) (hadds : AddsDirectories names t t') :
    KeepsTemplates t₀ t' := fun above name content hname hentry =>
  hadds.entry?_eq_file_iff.2 (h above name content hname hentry)

end KeepsTemplates

/-! ## Rendering -/

/-- A build among its pages: it has recorded some items and has come to a result. -/
structure Rendering (l : Layout) (t₀ : FileTree) (items : List (String × ManifestEntry))
    (r : BuildResult) (s : Stage) : Prop where
  layout_eq : s.layout = l
  manifest_eq : s.manifest.layout = l
  keeps : KeepsTemplates t₀ s.session.files
  entries_eq : s.manifest.entries = items
  result_eq : s.result = r

variable {items : List (String × ManifestEntry)} {r : BuildResult}

theorem Rendering.counting (hs : Rendering l t₀ items r s) (change : BuildResult → BuildResult) :
    Rendering l t₀ items (change r) (s.counting change) :=
  { hs with result_eq := congrArg change hs.result_eq }

/-- The text that a page had when rendering began. -/
def TextIn (t₀ : FileTree) (page : Path) (text : List Char) : Prop :=
  ∃ content, t₀.entry? page.parts = some (.file content) ∧ textOf content = some text

/-- What is recorded of a page that was rendered: its key, and what was found about it
while the templates stood as they did. -/
def Recorded (l : Layout) (t₀ : FileTree) (page : Path) (item : String × ManifestEntry) : Prop :=
  item.1 = "pages/" ++ l.pageName page ∧
    ∃ text t, TextIn t₀ page text ∧ KeepsTemplates t₀ t ∧ EntryOf l t page text item.2

/-- What has become of a page. -/
inductive PageAccounted (l : Layout) (t₀ : FileTree) (items : List (String × ManifestEntry))
    (r : BuildResult) (page : Path) : Option String → Stage → Prop
  | rendered {s : Stage} {item : String × ManifestEntry} (hitem : Recorded l t₀ page item)
      (hs : Rendering l t₀ (putKey items item.1 item.2)
        { r with pagesRendered := r.pagesRendered + 1 } s) :
      PageAccounted l t₀ items r page (some (l.pageName page)) s
  | failed {s : Stage}
      (hs : Rendering l t₀ items { r with failures := r.failures ++ [page] } s) :
      PageAccounted l t₀ items r page none s

/-- Items put into a manifest one after the other. -/
def putItems (items recorded : List (String × ManifestEntry)) : List (String × ManifestEntry) :=
  recorded.foldl (fun items item => putKey items item.1 item.2) items

/-- Some pages are accounted for: each was either rendered and recorded, or noted. -/
structure Accounts (l : Layout) (t₀ : FileTree) (items : List (String × ManifestEntry))
    (r : BuildResult) (rendered failed : List Path) (recorded : List (String × ManifestEntry))
    (s : Stage) : Prop where
  recorded_all : List.Forall₂ (Recorded l t₀) rendered recorded
  rendering : Rendering l t₀ (putItems items recorded)
    { r with
      pagesRendered := r.pagesRendered + rendered.length
      failures := r.failures ++ failed } s

/-- One page more is accounted for. -/
theorem Accounts.step {rendered failed : List Path} {recorded : List (String × ManifestEntry)}
    {o : Option String} {s' : Stage} (h : Accounts l t₀ items r rendered failed recorded s)
    (hpage : PageAccounted l t₀ (putItems items recorded)
      { r with
        pagesRendered := r.pagesRendered + rendered.length
        failures := r.failures ++ failed } page o s') :
    (∃ item, o = some (l.pageName page) ∧
      Accounts l t₀ items r (rendered ++ [page]) failed (recorded ++ [item]) s') ∨
    o = none ∧ Accounts l t₀ items r rendered (failed ++ [page]) recorded s' := by
  cases hpage with
  | @rendered _ item hitem hs =>
      refine .inl ⟨item, rfl, List.rel_append h.recorded_all (.cons hitem .nil), ?_⟩
      unfold putItems at hs ⊢
      rw [List.foldl_append, List.length_append]
      exact hs
  | failed hs =>
      refine .inr ⟨rfl, h.recorded_all, ?_⟩
      rw [← List.append_assoc]
      exact hs

end Folio
