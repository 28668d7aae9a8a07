import Folio.Proofs.Scan.Agreement

/-!
# What previews are rendered from

A preview loads its templates by name from the components, the elements and the pages, in
this order.  The entry of the preview in the manifest names what the search for
dependencies found, and a reference is looked for in the pages first.  Both take the first
root that has the file, so the order decides exactly where a page has the same name as a
component or an element: then the preview is rendered from the one and the reference leads
to the other (`Layout.Shadowed`).  Everywhere else what the preview loads is what is
recorded (`previews_load_what_references_find`).
-/

namespace Folio

open Text FileTree Source

variable {t : FileTree} {l : Layout} {target : List Char}

/-! ## Two orders of the same roots -/

namespace Layout

/-- The file in the first of the roots of previews that has one under the names of a
text. -/
def inPreviewRoots (l : Layout) (t : FileTree) (target : List Char) : Option Path :=
  (l.previewRoots.map (· / Path.ofChars target)).find? t.hasFile

/-- A page has the name of a component or of an element. -/
structure Shadowed (l : Layout) (t : FileTree) (target : List Char) : Prop where
  page : t.hasFile (l.pages / Path.ofChars target) = true
  other : t.hasFile (l.components / Path.ofChars target) = true ∨
    t.hasFile (l.elements / Path.ofChars target) = true

/-- The order of the roots does not matter where no root has the file. -/
theorem inRoots_eq_none_iff : l.inRoots t target = none ↔ l.inPreviewRoots t target = none := by
  have hsame : ∀ p, p ∈ l.searchRoots.map (· / Path.ofChars target) ↔
      p ∈ l.previewRoots.map (· / Path.ofChars target) := by
    intro p
    simp only [searchRoots, previewRoots, RootKind.all, List.map_cons, List.map_nil,
      List.mem_cons, List.not_mem_nil, or_false]
    exact ⟨fun h => h.elim (fun h => .inr (.inr h)) fun h => h.imp_right .inl,
      fun h => h.elim (fun h => .inr (.inl h)) fun h => h.elim (fun h => .inr (.inr h)) .inl⟩
  unfold inRoots inPreviewRoots
  rw [List.find?_eq_none, List.find?_eq_none]
  exact forall_congr' fun p => by rw [hsame p]

/-- Without a page of that name, the pages may as well be asked last. -/
theorem inRoots_of_no_page (hpage : t.hasFile (l.pages / Path.ofChars target) = false) :
    l.inRoots t target = l.inPreviewRoots t target := by
  show List.find? t.hasFile [l.pages / Path.ofChars target, l.components / Path.ofChars target,
    l.elements / Path.ofChars target] = List.find? t.hasFile
      [l.components / Path.ofChars target, l.elements / Path.ofChars target,
        l.pages / Path.ofChars target]
  simp only [List.find?_cons, hpage, List.find?_nil]

/-- A page is what a reference leads to. -/
theorem inRoots_of_page (hpage : t.hasFile (l.pages / Path.ofChars target) = true) :
    l.inRoots t target = some (l.pages / Path.ofChars target) :=
  List.find?_cons_of_pos hpage

/-- A preview loads a page only where there is nothing else of that name. -/
theorem inPreviewRoots_of_page (hpage : t.hasFile (l.pages / Path.ofChars target) = true)
    (hother : ¬ l.Shadowed t target) :
    l.inPreviewRoots t target = some (l.pages / Path.ofChars target) := by
  have hnone : t.hasFile (l.components / Path.ofChars target) = false ∧
      t.hasFile (l.elements / Path.ofChars target) = false := by
    simpa [not_or] using fun h => hother ⟨hpage, h⟩
  show List.find? t.hasFile [l.components / Path.ofChars target, l.elements / Path.ofChars target,
    l.pages / Path.ofChars target] = _
  simp only [List.find?_cons, hpage, hnone]

/-- What a preview loads is no page where a page hides it from references. -/
theorem inPreviewRoots_of_shadowed (hshadowed : l.Shadowed t target) :
    ∃ kind ≠ RootKind.page,
      l.inPreviewRoots t target = some (l.rootOf kind / Path.ofChars target) := by
  show ∃ kind ≠ RootKind.page, List.find? t.hasFile [l.rootOf .component / Path.ofChars target,
    l.rootOf .element / Path.ofChars target, l.rootOf .page / Path.ofChars target] = _
  cases hcomponent : t.hasFile (l.rootOf .component / Path.ofChars target) with
  | true => exact ⟨.component, by decide, List.find?_cons_of_pos hcomponent⟩
  | false =>
      have helement : t.hasFile (l.rootOf .element / Path.ofChars target) = true :=
        hshadowed.other.resolve_left fun h => by rw [components, hcomponent] at h; cases h
      refine ⟨.element, by decide, ?_⟩
      rw [List.find?_cons_of_neg (by simp [hcomponent]), List.find?_cons_of_pos helement]

/-- The names of a text lead to different files from the roots of two kinds. -/
theorem rootOf_join_injective (hrelative : target.head? ≠ some '/') {k k' : RootKind}
    (hsame : l.rootOf k / Path.ofChars target = l.rootOf k' / Path.ofChars target) : k = k' := by
  have hunder : ∀ kind, Path.isUnder (l.rootOf kind) (l.rootOf kind / Path.ofChars target) := by
    intro kind
    have hjoin : l.rootOf kind / Path.ofChars target = ⟨(l.rootOf kind).anchor,
        (l.rootOf kind).parts ++ (Path.ofChars target).parts⟩ :=
      if_pos (Path.anchor_ofChars hrelative)
    rw [hjoin]
    exact Path.isUnder_iff.2 ⟨rfl, List.prefix_append ..⟩
  exact kind_unique (hunder k) (hsame ▸ hunder k')

/-- The order of the roots decides exactly where a file is shadowed. -/
theorem inRoots_eq_iff (hrelative : target.head? ≠ some '/') :
    l.inRoots t target = l.inPreviewRoots t target ↔ ¬ l.Shadowed t target := by
  constructor
  · -- The one finds the page and the other does not, and these are different files.
    intro hsame hshadowed
    obtain ⟨kind, hkind, hfound⟩ := inPreviewRoots_of_shadowed hshadowed
    rw [inRoots_of_page hshadowed.page, hfound] at hsame
    exact hkind (rootOf_join_injective hrelative (Option.some.inj hsame)).symm
  · intro hother
    cases hpage : t.hasFile (l.pages / Path.ofChars target) with
    | false => exact inRoots_of_no_page hpage
    | true => rw [inRoots_of_page hpage, inPreviewRoots_of_page hpage hother]

end Layout

/-! ## Names that no file can have -/

/-- A character of a text is in one of the pieces that the text is cut into, unless it is
the mark. -/
theorem exists_mem_splitAt {mark c : Char} {s : List Char} (hmem : c ∈ s) (hne : c ≠ mark) :
    ∃ piece ∈ splitAt mark s, c ∈ piece := by
  rw [← joinWith_splitAt mark s] at hmem
  generalize splitAt mark s = pieces at hmem
  induction pieces with
  | nil => cases hmem
  | cons first rest ih =>
      cases rest with
      | nil => exact ⟨first, List.mem_cons_self .., by simpa using hmem⟩
      | cons second more =>
          rw [joinWith_cons _ first (List.cons_ne_nil second more)] at hmem
          rcases List.mem_append.1 hmem with h | h
          · exact ⟨first, List.mem_cons_self .., h⟩
          · have hrest := (List.mem_append.1 h).resolve_left fun h => hne (List.mem_singleton.1 h)
            obtain ⟨piece, hpiece, hc⟩ := ih hrest
            exact ⟨piece, List.mem_cons_of_mem _ hpiece, hc⟩

theorem Path.not_usable_ofChars (hnull : '\x00' ∈ target) :
    ∃ name ∈ (Path.ofChars target).parts, Path.isUsable name = false := by
  obtain ⟨piece, hpiece, hmem⟩ := exists_mem_splitAt hnull (by decide : '\x00' ≠ '/')
  have hkept : (!piece.isEmpty && piece ≠ ['.']) = true := by
    have hempty : piece ≠ [] := List.ne_nil_of_mem hmem
    have hdot : piece ≠ ['.'] := by
      rintro rfl
      revert hmem
      decide
    simp [hempty, hdot]
  refine ⟨String.ofList piece, List.mem_map.2 ⟨piece, List.mem_filter.2 ⟨hpiece, hkept⟩, rfl⟩, ?_⟩
  simp [Path.isUsable, hmem]

/-- With a null character in it, a text makes no path. -/
theorem Path.resolved_join_of_null {base : Path} (hnull : '\x00' ∈ target) :
    (base.join (ofChars target)).resolved = .error .nullCharacter := by
  obtain ⟨name, hname, husable⟩ := not_usable_ofChars hnull
  have hmem : name ∈ (base.join (ofChars target)).parts := by
    unfold join
    split
    · exact List.mem_append_right _ hname
    · exact hname
  unfold resolved resolve
  rw [parts_top_join, if_neg]
  intro hall
  rw [List.all_eq_true.1 hall name hmem] at husable
  cases husable

/-- A reference with a null character is an error, and no loader finds such a file. -/
theorem resolveReference_of_null {current : Path} (hnull : '\x00' ∈ target) :
    resolveReference t l current target = .error .unusablePath := by
  show firstFile t (_ :: l.searchRoots.map (·.join (Path.ofChars target))) = _
  rw [firstFile, Path.resolved_join_of_null hnull]
  rfl

theorem Layout.inPreviewRoots_of_null (hrelative : target.head? ≠ some '/')
    (hnull : '\x00' ∈ target) : l.inPreviewRoots t target = none := by
  obtain ⟨name, hname, husable⟩ := Path.not_usable_ofChars hnull
  refine List.find?_eq_none.2 fun p hp => ?_
  obtain ⟨root, -, rfl⟩ := List.mem_map.1 hp
  have hparts : (root / Path.ofChars target).parts = root.parts ++ (Path.ofChars target).parts := by
    show (root.join (Path.ofChars target)).parts = _
    unfold Path.join
    rw [if_pos (Path.anchor_ofChars hrelative)]
  have hlocate : t.locate (root / Path.ofChars target) = .error .nullCharacter := by
    unfold FileTree.locate
    rw [hparts, if_pos]
    rw [Bool.not_eq_true', List.all_eq_false]
    exact ⟨name, List.mem_append_right _ hname, by simp [husable]⟩
  simp [FileTree.hasFile, FileTree.stat, hlocate, bind, Except.bind]

/-! ## Searches that succeed -/

/-- Following references comes to its end only if each of them can be resolved. -/
theorem resolvable_of_followReferences {current : Path} {refs : List Reference} {log : List Record}
    {search : Search} :
    Ends (followReferences l current refs search) ⟨t, log⟩
      (fun _ _ => Resolvable t l current refs) fun _ _ => True := by
  induction refs generalizing log search with
  | nil => exact ends_pure.2 fun ref href => absurd href List.not_mem_nil
  | cons ref rest ih =>
      unfold followReferences
      simp only [ends_bind, Action.ends_files, Action.ends_orRaise]
      cases htarget : resolveReference t l current ref.target with
      | error cause => trivial
      | ok target =>
          have hall : Resolvable t l current rest → Resolvable t l current (ref :: rest) :=
            fun hrest => List.forall_mem_cons.2 ⟨⟨target, htarget⟩, hrest⟩
          dsimp only
          cases target with
          | none =>
              simp only [ends_bind, Action.ends_debug]
              exact ih.mono (fun _ _ => hall) fun _ _ => id
          | some file => exact ih.mono (fun _ _ => hall) fun _ _ => id

/-- A search that succeeds has resolved the references of the file that it began with. -/
theorem resolvable_of_scan {current : Path} (hcurrent : current.IsCanonical) {text : List Char}
    (hread : t.readText current = .ok text) {d : Dependencies}
    (hscan : (scan l current).outcome t = .ok d) : Resolvable t l current (references text) := by
  have hstep : Ends (searchStep l ⟨[current], [], Dependencies.empty⟩ current []) ⟨t, []⟩
      (fun _ _ => Resolvable t l current (references text)) fun _ _ => True := by
    unfold searchStep
    simp only [ends_bind, Action.ends_orRaise, hcurrent.resolved_eq, Except.mapError,
      List.not_mem_nil, if_false, Action.ends_files, hread]
    exact resolvable_of_followReferences
  have hends : Ends (scan l current) ⟨t, []⟩
      (fun _ _ => Resolvable t l current (references text)) fun _ _ => True := by
    obtain ⟨fuel, hfuel⟩ : ∃ fuel, searchBound t = fuel + 1 :=
      ⟨1 + t.allSteps, by rw [searchBound_eq]; omega⟩
    unfold scan
    simp only [ends_bind, Action.ends_files, hfuel]
    unfold runSearch
    rw [ends_bind]
    -- What the search does after its first step does not matter.
    refine hstep.mono (fun search' s hall => ?_) fun _ _ _ => trivial
    exact ((reads_runSearch l fuel search').ends s).mono (fun _ _ _ => ends_pure.2 hall)
      fun _ _ _ => trivial
  have hresolvable := ends_of_eq_ok hends (Prod.ext hscan rfl)
  exact hresolvable

/-- A search that succeeds records what a reference of its first file leads to. -/
theorem mem_ofKind_of_scan {current : Path} (hcurrent : current.IsCanonical) {text : List Char}
    (hread : t.readText current = .ok text) {d : Dependencies}
    (hscan : (scan l current).outcome t = .ok d) {ref : Reference} (href : ref ∈ references text)
    {file : Path} (htarget : resolveReference t l current ref.target = .ok (some file))
    {kind : RootKind} (hkind : kind ≠ .page) (hunder : Path.isUnder (l.rootOf kind) file) :
    file ∈ d.ofKind kind := by
  rw [outcome_scan] at hscan
  cases hrun : (runSearch l (searchBound t) ⟨[current], [], Dependencies.empty⟩).outcome t with
  | error e =>
      rw [hrun] at hscan
      cases hscan
  | ok search =>
      rw [hrun] at hscan
      cases hscan
      obtain ⟨hsound, hpending⟩ := pending_eq_nil_of_runSearch hcurrent.resolved_eq hrun
      -- A search that has nothing left has visited all that it has seen.
      have hvisited : current ∈ search.found.visited :=
        (hsound.mem_visited current).2 ⟨hsound.mem_seen hpending .refl, text, hread⟩
      exact (hsound.mem_kind kind hkind file).2
        ⟨hunder, current, hvisited, text, hread, ref, href, htarget⟩

/-! ## Previews and references -/

/-- **What a preview loads is what its references lead to, unless a page shadows it.**
Let a template refer to names that lead down and are not those of a file beside it.  Then
the reference leads to the first root that has the file, pages first, and fails only for
names that no file can have.  The preview loads the first file of components, elements
and pages.  The one finds nothing exactly if the other does; they find the same file
exactly if no page has the name of a component or element; and if one has, the reference
leads to the page and the preview loads the other.  So a search from the template records
every component or element that the preview loads and no page shadows. -/
theorem previews_load_what_references_find (hl : l.WellFormed) {current : Path}
    (hcurrent : current.IsCanonical) {text : List Char} (hread : t.readText current = .ok text)
    {ref : Reference} (href : ref ∈ references text) (hrelative : ref.target.head? ≠ some '/')
    (hup : ['.', '.'] ∉ splitAt '/' ref.target)
    (hbeside : t.hasFile (current.parent / Path.ofChars ref.target).fromTop = false) :
    (resolveReference t l current ref.target = .ok (l.inRoots t ref.target) ∨
      '\x00' ∈ ref.target ∧ resolveReference t l current ref.target = .error .unusablePath ∧
        l.inPreviewRoots t ref.target = none ∨
      (∃ c ∈ l.tried current ref.target, isTooLong c.fromTop = true) ∧
        resolveReference t l current ref.target = .error (.file .nameTooLong)) ∧
    (findTemplate t l.previewRoots (String.ofList ref.target) = l.inPreviewRoots t ref.target ∧
      (openSource t l.previewRoots (String.ofList ref.target) = .error .notFound ↔
        l.inPreviewRoots t ref.target = none)) ∧
    (l.inRoots t ref.target = none ↔ l.inPreviewRoots t ref.target = none) ∧
    (l.inRoots t ref.target = l.inPreviewRoots t ref.target ↔ ¬ l.Shadowed t ref.target) ∧
    (l.Shadowed t ref.target →
      l.inRoots t ref.target = some (l.pages / Path.ofChars ref.target) ∧
      ∃ kind ≠ RootKind.page, l.inPreviewRoots t ref.target =
        some (l.rootOf kind / Path.ofChars ref.target)) ∧
    ∀ d, (scan l current).outcome t = .ok d → ¬ l.Shadowed t ref.target →
      ∀ file, findTemplate t l.previewRoots (String.ofList ref.target) = some file →
        resolveReference t l current ref.target = .ok (some file) ∧
        ∀ kind ≠ RootKind.page, Path.isUnder (l.rootOf kind) file → file ∈ d.ofKind kind := by
  have hload : findTemplate t l.previewRoots (String.ofList ref.target) =
      l.inPreviewRoots t ref.target := Layout.findTemplate_ofList hrelative hup
  have hresolve : '\x00' ∉ ref.target →
      resolveReference t l current ref.target = .ok (l.inRoots t ref.target) ∨
        resolveReference t l current ref.target = .error (.file .nameTooLong) ∧
          ∃ c ∈ l.tried current ref.target, isTooLong c.fromTop = true := by
    intro hnull
    rw [← Layout.find?_tried_eq_inRoots hl hrelative hup hbeside]
    exact firstFile_eq_or (Layout.usable_of_mem_tried hl hcurrent.usable hrelative hnull)
  have hsame := Layout.inRoots_eq_iff (t := t) (l := l) hrelative
  refine ⟨?_, ⟨hload, ?_⟩, Layout.inRoots_eq_none_iff, hsame, fun hshadowed => ?_, ?_⟩
  · by_cases hnull : '\x00' ∈ ref.target
    · exact .inr (.inl ⟨hnull, resolveReference_of_null hnull,
        Layout.inPreviewRoots_of_null hrelative hnull⟩)
    · exact (hresolve hnull).imp_right fun h => .inr h.symm
  · rw [← hload]
    exact openSource_notFound_iff
  · exact ⟨Layout.inRoots_of_page hshadowed.page, Layout.inPreviewRoots_of_shadowed hshadowed⟩
  · intro d hscan hother file hfile
    rw [hload, ← hsame.2 hother] at hfile
    -- The search has succeeded, so the reference is none that fails.
    obtain ⟨found, hfound⟩ := resolvable_of_scan hcurrent hread hscan ref href
    have htarget : resolveReference t l current ref.target = .ok (some file) := by
      by_cases hnull : '\x00' ∈ ref.target
      · rw [resolveReference_of_null hnull] at hfound
        cases hfound
      · rcases hresolve hnull with h | ⟨h, -⟩
        · rw [h, hfile]
        · rw [h] at hfound
          cases hfound
    exact ⟨htarget, fun kind hkind hunder =>
      mem_ofKind_of_scan hcurrent hread hscan href htarget hkind hunder⟩

/-- A component that includes a card in its own preview. -/
def framePage : Path :=
  ⟨.root, ["t", "components", "a", "frame.tmpl"]⟩

/-- The text of the component. -/
def frameText : List Char :=
  "\x7b% include 'card.tmpl' %\x7d".toList

/-- A space in which a page and a component are both called as the card is. -/
def frameFiles : FileTree :=
  ⟨[(["t"], .directory), (["t", "pages"], .directory), (["t", "components"], .directory),
    (["t", "components", "a"], .directory),
    (["t", "components", "a", "frame.tmpl"], .file (String.ofList frameText).toUTF8),
    (["t", "components", "card.tmpl"], .file "card".toUTF8),
    (["t", "pages", "card.tmpl"], .file "page".toUTF8)]⟩

/-- The preview shows the component, and what is recorded is the page. -/
theorem previews_load_what_references_find_card :
    resolveReference frameFiles Layout.small framePage "card.tmpl".toList =
        .ok (some ⟨.root, ["t", "pages", "card.tmpl"]⟩) ∧
      findTemplate frameFiles Layout.small.previewRoots "card.tmpl" =
        some ⟨.root, ["t", "components", "card.tmpl"]⟩ := by
  have hread : frameFiles.readText framePage = .ok frameText := by decide +kernel
  have href : ⟨.include, "card.tmpl".toList, 1⟩ ∈ references frameText := by decide +kernel
  have hbeside : frameFiles.hasFile
      (framePage.parent / Path.ofChars "card.tmpl".toList).fromTop = false := by decide +kernel
  have hshort : ∀ c ∈ Layout.small.tried framePage "card.tmpl".toList,
      isTooLong c.fromTop = false := by decide +kernel
  have hcanonical : framePage.IsCanonical := ⟨rfl, by decide, by decide⟩
  have hshadowed : Layout.small.Shadowed frameFiles "card.tmpl".toList :=
    ⟨by decide +kernel, .inl (by decide +kernel)⟩
  obtain ⟨hresolve, ⟨hload, -⟩, -, -, hdiffer, -⟩ := previews_load_what_references_find
    Layout.wellFormed_small hcanonical hread href (by decide) (by decide) hbeside
  obtain ⟨hpage, -⟩ := hdiffer hshadowed
  have hother : Layout.small.inPreviewRoots frameFiles "card.tmpl".toList =
      some ⟨.root, ["t", "components", "card.tmpl"]⟩ := by decide +kernel
  refine ⟨?_, hload.trans hother⟩
  rcases hresolve with h | ⟨hnull, -⟩ | ⟨⟨c, hc, hlong⟩, -⟩
  · exact h.trans (congrArg Except.ok hpage)
  · exact absurd hnull (by decide)
  · rw [hshort c hc] at hlong
    cases hlong

end Folio
