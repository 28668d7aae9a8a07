import Folio.Proofs.Output.Contained
import Folio.Proofs.Scan.Inside
import Folio.Proofs.Text.Cutting

/-!
# Two ways to look a template up

A reference in a template is looked for beside the template and then in the roots, with
names read as a path; `resolveReference` does this for the checker and for the manifest.
A page that is rendered loads its templates by name, from the roots alone, with the names
taken piece by piece; this is `findTemplate`.

Both take the same names from a text that leads down from where it is read, and both take
the first root that has the file.  So they differ only where there is a file beside the
template, and where a path that is tried is too long: this is a failure for the one and no
file for the other (`resolveReference_coincides`).  The checker therefore accepts what the
loader does not find exactly for names that start at the root of the file system, names
that go up, and files beside a page in a deeper directory (`loads_of_checkFile`).
-/

namespace Folio

open Text FileTree Source

variable {t : FileTree} {l : Layout} {p q : Path} {target : List Char}

/-! ## Names in a text -/

namespace Path

theorem anchor_ofChars (hrelative : target.head? ≠ some '/') :
    (ofChars target).anchor = .relative := by
  cases target with
  | nil => rfl
  | cons c rest =>
      have hc : c ≠ '/' := fun h => hrelative (by rw [h]; rfl)
      show anchorOf (c :: rest) = .relative
      unfold anchorOf
      split <;> simp_all

theorem usable_ofChars (hnull : '\x00' ∉ target) :
    ∀ name ∈ (ofChars target).parts, isUsable name := by
  intro name hname
  obtain ⟨piece, hpiece, rfl⟩ := List.mem_map.1 hname
  have hinside : piece <:+: target := infix_of_mem_splitAt (List.mem_filter.1 hpiece).1
  have hfree : '\x00' ∉ piece := fun h => hnull (hinside.subset h)
  simp [isUsable, hfree]

theorem mem_ofChars_iff : ".." ∈ (ofChars target).parts ↔ ['.', '.'] ∈ splitAt '/' target := by
  constructor
  · intro hup
    obtain ⟨piece, hpiece, hdots⟩ := List.mem_map.1 hup
    have hchars : piece = ['.', '.'] := by
      rw [← @String.toList_ofList piece, hdots]
      rfl
    exact hchars ▸ (List.mem_filter.1 hpiece).1
  · intro hup
    exact List.mem_map.2 ⟨['.', '.'], List.mem_filter.2 ⟨hup, by decide⟩, rfl⟩

end Path

/-- A template is loaded by the names that its text reads as a path. -/
theorem templateNames?_ofList (hup : ['.', '.'] ∉ splitAt '/' target) :
    templateNames? (String.ofList target) = some (Path.ofChars target).parts := by
  unfold templateNames?
  rw [String.toList_ofList]
  dsimp only
  rw [if_neg (by simpa using hup)]
  rfl

/-! ## Files that are found -/

namespace FileTree

/-- Asking for a file fails only for a path that is too long. -/
theorem isFile_eq_or (t : FileTree) (p : Path) :
    t.isFile p = .ok (t.hasFile p) ∨ t.isFile p = .error .nameTooLong ∧ isTooLong p = true := by
  by_cases hlong : t.probe p = .error .nameTooLong
  · refine .inr ⟨by rw [FileTree.isFile, hlong]; rfl, ?_⟩
    by_contra hshort
    exact locate_ne_tooLong (by simpa using hshort) (probe_eq_tooLong_iff.1 hlong)
  · refine .inl ?_
    unfold FileTree.isFile hasFile
    unfold probe at hlong ⊢
    cases hstat : t.stat p with
    | ok entry => cases entry <;> rfl
    | error fault =>
        rw [hstat] at hlong
        cases fault <;> first | rfl | exact absurd rfl hlong

end FileTree

/-- The place that a path leads to from the top. -/
abbrev Path.fromTop (p : Path) : Path :=
  Path.absolute Path.top p

theorem Path.parts_top_join (p : Path) : (top.join p).parts = p.parts := by
  unfold join
  split <;> rfl

theorem Path.resolved_of_usable (husable : ∀ name ∈ p.parts, isUsable name) :
    p.resolved = .ok p.fromTop := by
  unfold resolved resolve
  rw [parts_top_join, if_pos (List.all_eq_true.2 husable)]

theorem Path.eq_fromTop (hresolved : p.resolved = .ok q) : q = p.fromTop := by
  unfold resolved resolve at hresolved
  split at hresolved
  · cases hresolved
    rfl
  · cases hresolved

theorem FileTree.hasFile_of_isFile (hfile : t.isFile p = .ok true) : t.hasFile p = true := by
  rcases t.isFile_eq_or p with h | ⟨h, -⟩
  · exact (Except.ok.inj (hfile.symm.trans h)).symm
  · rw [hfile] at h
    cases h

/-- The first file is looked for among the places that the paths lead to. -/
theorem firstFile_eq_or {paths : List Path}
    (husable : ∀ c ∈ paths, ∀ name ∈ c.parts, Path.isUsable name) :
    firstFile t paths = .ok ((paths.map Path.fromTop).find? t.hasFile) ∨
      firstFile t paths = .error (.file .nameTooLong) ∧
        ∃ c ∈ paths, isTooLong c.fromTop = true := by
  induction paths with
  | nil => exact .inl rfl
  | cons c rest ih =>
      obtain ⟨hc, hrest⟩ := List.forall_mem_cons.1 husable
      unfold firstFile
      rw [Path.resolved_of_usable hc, List.map_cons, List.find?_cons]
      rcases t.isFile_eq_or c.fromTop with hfile | ⟨hfile, hlong⟩
      · cases hfound : t.hasFile c.fromTop with
        | true => exact .inl (by simp [Except.mapError, bind, Except.bind, hfile, hfound]; rfl)
        | false =>
            simp only [Except.mapError, bind, Except.bind, hfile, hfound]
            rcases ih hrest with h | ⟨h, c', hc', hlong⟩
            · exact .inl h
            · exact .inr ⟨h, c', List.mem_cons_of_mem _ hc', hlong⟩
      · -- The search ends with the first path that cannot be looked at.
        refine .inr ⟨?_, c, List.mem_cons_self .., hlong⟩
        simp [Except.mapError, bind, Except.bind, hfile]

/-! ## Files in the roots -/

namespace Layout

/-- The file in the first of the roots that has one under the names of a text. -/
def inRoots (l : Layout) (t : FileTree) (target : List Char) : Option Path :=
  (l.searchRoots.map (· / Path.ofChars target)).find? t.hasFile

theorem isPlain_of_mem_searchRoots (hl : l.WellFormed) (hp : p ∈ l.searchRoots) : p.IsPlain := by
  obtain ⟨kind, -, rfl⟩ := List.mem_map.1 hp
  exact hl.rootOf kind

/-- Names that lead down from a root need no resolving. -/
theorem fromTop_join (hp : p.IsPlain) (hrelative : (Path.ofChars target).anchor = .relative)
    (hup : ".." ∉ (Path.ofChars target).parts) :
    (p / Path.ofChars target).fromTop = p / Path.ofChars target := by
  have hjoin : p / Path.ofChars target = ⟨.root, p.parts ++ (Path.ofChars target).parts⟩ := by
    show p.join (Path.ofChars target) = _
    unfold Path.join
    rw [if_pos hrelative, hp.anchor_eq]
  have hdown : ".." ∉ p.parts ++ (Path.ofChars target).parts := by
    rw [List.mem_append]
    exact fun h => h.elim hp.isCanonical.not_mem hup
  rw [hjoin]
  show (⟨.root, Path.normalParts [] (p.parts ++ (Path.ofChars target).parts)⟩ : Path) = _
  rw [Path.normalParts_of_not_mem hdown, List.nil_append]

/-- A loader finds what the first of its directories has. -/
theorem findTemplate_ofList {roots : List Path} (hrelative : target.head? ≠ some '/')
    (hup : ['.', '.'] ∉ splitAt '/' target) :
    findTemplate t roots (String.ofList target) =
      (roots.map (· / Path.ofChars target)).find? t.hasFile := by
  have hjoin : ∀ root : Path, root / Path.ofChars target =
      ⟨root.anchor, root.parts ++ (Path.ofChars target).parts⟩ := fun root =>
    if_pos (Path.anchor_ofChars hrelative)
  unfold findTemplate
  rw [templateNames?_ofList hup]
  simp only [hjoin]
  rfl

/-- The loader of pages finds what the roots have. -/
theorem findTemplate_eq_inRoots (hrelative : target.head? ≠ some '/')
    (hup : ['.', '.'] ∉ splitAt '/' target) :
    findTemplate t l.pageRoots (String.ofList target) = l.inRoots t target :=
  findTemplate_ofList hrelative hup

/-- No path that is tried has a name that no file can have. -/
theorem usable_of_mem_tried (hl : l.WellFormed) {current : Path}
    (hcurrent : ∀ name ∈ current.parts, Path.isUsable name)
    (hrelative : target.head? ≠ some '/') (hnull : '\x00' ∉ target) :
    ∀ c ∈ l.tried current target, ∀ name ∈ c.parts, Path.isUsable name := by
  intro c hc name hname
  obtain ⟨root, hroot, rfl⟩ := List.mem_map.1 hc
  have hjoin : (root.join (Path.ofChars target)).parts =
      root.parts ++ (Path.ofChars target).parts := by
    unfold Path.join
    rw [if_pos (Path.anchor_ofChars hrelative)]
  rw [hjoin] at hname
  rcases List.mem_append.1 hname with h | h
  · rcases List.mem_cons.1 hroot with rfl | hroot
    · exact hcurrent name (List.dropLast_subset _ h)
    · exact (isPlain_of_mem_searchRoots hl hroot).isCanonical.usable name h
  · exact Path.usable_ofChars hnull name h

/-- If there is no such file beside the template, the roots are what is left. -/
theorem find?_tried_eq_inRoots (hl : l.WellFormed) {current : Path}
    (hrelative : target.head? ≠ some '/') (hup : ['.', '.'] ∉ splitAt '/' target)
    (hbeside : t.hasFile (current.parent / Path.ofChars target).fromTop = false) :
    ((l.tried current target).map Path.fromTop).find? t.hasFile = l.inRoots t target := by
  have hdown : ".." ∉ (Path.ofChars target).parts := fun h => hup (Path.mem_ofChars_iff.1 h)
  have hroots : (l.searchRoots.map (· / Path.ofChars target)).map Path.fromTop =
      l.searchRoots.map (· / Path.ofChars target) := by
    rw [List.map_map]
    refine List.map_congr_left fun root hroot => ?_
    exact fromTop_join (isPlain_of_mem_searchRoots hl hroot) (Path.anchor_ofChars hrelative) hdown
  show List.find? t.hasFile (_ :: (l.searchRoots.map (· / Path.ofChars target)).map
    Path.fromTop) = _
  rw [hroots]
  have hnone : ¬ t.hasFile (current.parent / Path.ofChars target).fromTop = true := by
    rw [hbeside]
    decide
  exact List.find?_cons_of_neg hnone

end Layout

theorem openSource_notFound_iff {roots : List Path} {name : String} :
    openSource t roots name = .error .notFound ↔ findTemplate t roots name = none := by
  unfold openSource
  cases findTemplate t roots name with
  | none => simp
  | some file =>
      dsimp only
      split <;> simp

theorem notFound_of_loaderOf {roots : List Path} {name : String}
    (hload : loaderOf t roots name = .error .notFound) :
    openSource t roots name = .error .notFound := by
  unfold loaderOf at hload
  cases hopen : openSource t roots name with
  | ok found =>
      rw [hopen] at hload
      cases hload
  | error fault =>
      rw [hopen] at hload
      cases hload
      rfl

theorem findTemplate_of_openSource {roots : List Path} {name : String} {file : Path}
    {text : List Char} (hopen : openSource t roots name = .ok (file, text)) :
    findTemplate t roots name = some file := by
  unfold openSource at hopen
  cases hfound : findTemplate t roots name with
  | none =>
      rw [hfound] at hopen
      cases hopen
  | some found =>
      rw [hfound] at hopen
      dsimp only at hopen
      split at hopen
      · cases hopen
        rfl
      · cases hopen

/-- **A reference and the loader of pages come to the same file** for every text that
names no root, no null character and no way up, if there is no such file beside the
template: the first root that has the file decides.  Only a path that is too long makes
the reference fail, where the loader finds nothing there. -/
theorem resolveReference_coincides (hl : l.WellFormed) {current : Path}
    (hcurrent : ∀ name ∈ current.parts, Path.isUsable name)
    (hrelative : target.head? ≠ some '/') (hnull : '\x00' ∉ target)
    (hup : ['.', '.'] ∉ splitAt '/' target)
    (hbeside : t.hasFile (current.parent / Path.ofChars target).fromTop = false) :
    (resolveReference t l current target = .ok (l.inRoots t target) ∨
      resolveReference t l current target = .error (.file .nameTooLong) ∧
        ∃ c ∈ l.tried current target, isTooLong c.fromTop = true) ∧
    findTemplate t l.pageRoots (String.ofList target) = l.inRoots t target ∧
    (openSource t l.pageRoots (String.ofList target) = .error .notFound ↔
      l.inRoots t target = none) ∧
    ∀ file text, openSource t l.pageRoots (String.ofList target) = .ok (file, text) →
      l.inRoots t target = some file := by
  have hfind : findTemplate t l.pageRoots (String.ofList target) = l.inRoots t target :=
    Layout.findTemplate_eq_inRoots hrelative hup
  refine ⟨?_, hfind, ?_, ?_⟩
  · rw [← Layout.find?_tried_eq_inRoots hl hrelative hup hbeside]
    exact firstFile_eq_or (Layout.usable_of_mem_tried hl hcurrent hrelative hnull)
  · rw [← hfind]
    exact openSource_notFound_iff
  · intro file text hopen
    rw [← hfind]
    exact findTemplate_of_openSource hopen

/-- A page in a directory of its own. -/
def blogPage : Path :=
  ⟨.root, ["t", "pages", "blog", "post.tmpl"]⟩

/-- The text of the page. -/
def blogText : List Char :=
  "\x7b% include 'side.tmpl' %\x7d\x7b% include './cards//card.tmpl' %\x7d".toList

/-- A space with that page, a part of the page beside it, and a component. -/
def blogFiles : FileTree :=
  ⟨[(["t"], .directory), (["t", "pages"], .directory), (["t", "pages", "blog"], .directory),
    (["t", "pages", "blog", "post.tmpl"], .file (String.ofList blogText).toUTF8),
    (["t", "pages", "blog", "side.tmpl"], .file "s".toUTF8),
    (["t", "components"], .directory), (["t", "components", "cards"], .directory),
    (["t", "components", "cards", "card.tmpl"], .file "c".toUTF8)]⟩

/-- A component is found from the page by either way, however its name is spelled. -/
theorem resolveReference_coincides_spellings :
    resolveReference blogFiles Layout.small blogPage "./cards//card.tmpl/".toList =
        .ok (some ⟨.root, ["t", "components", "cards", "card.tmpl"]⟩) ∧
      findTemplate blogFiles Layout.small.pageRoots "./cards//card.tmpl/" =
        some ⟨.root, ["t", "components", "cards", "card.tmpl"]⟩ := by
  have hroots : Layout.small.inRoots blogFiles "./cards//card.tmpl/".toList =
      some ⟨.root, ["t", "components", "cards", "card.tmpl"]⟩ := by decide +kernel
  have hshort : ∀ c ∈ Layout.small.tried blogPage "./cards//card.tmpl/".toList,
      isTooLong c.fromTop = false := by decide +kernel
  have husable : ∀ name ∈ blogPage.parts, Path.isUsable name := by decide
  have hbeside : blogFiles.hasFile
      (blogPage.parent / Path.ofChars "./cards//card.tmpl/".toList).fromTop = false := by
    decide +kernel
  obtain ⟨hresolve, hfind, -⟩ := resolveReference_coincides Layout.wellFormed_small husable
    (by decide) (by decide) (by decide) hbeside
  rw [hroots] at hresolve hfind
  refine ⟨hresolve.resolve_right ?_, hfind⟩
  rintro ⟨-, c, hc, hlong⟩
  rw [hshort c hc] at hlong
  cases hlong

/-! ## Checked references -/

theorem exists_of_mem_mapM {α β ε : Type} {f : α → Except ε β} {xs : List α} {ys : List β}
    (hmap : xs.mapM f = .ok ys) {x : α} (hx : x ∈ xs) : ∃ y ∈ ys, f x = .ok y := by
  induction xs generalizing ys with
  | nil => cases hx
  | cons first rest ih =>
      rw [List.mapM_cons] at hmap
      cases hfirst : f first with
      | error e =>
          rw [hfirst] at hmap
          cases hmap
      | ok y =>
          cases hrest : rest.mapM f with
          | error e =>
              rw [hfirst, hrest] at hmap
              cases hmap
          | ok more =>
              rw [hfirst, hrest] at hmap
              cases hmap
              rcases List.mem_cons.1 hx with rfl | hx
              · exact ⟨y, List.mem_cons_self .., hfirst⟩
              · obtain ⟨z, hz, hfz⟩ := ih hrest hx
                exact ⟨z, List.mem_cons_of_mem _ hz, hfz⟩

/-- A reference that was checked leads to a file or is listed. -/
theorem mem_brokenReferences {text : List Char} {broken : List Diagnostic} {ref : Reference}
    (hbroken : brokenReferences t l p text = .ok broken) (href : ref ∈ references text) :
    (∃ q, resolveReference t l p ref.target = .ok (some q)) ∨
      ⟨p, ref.line, ref.kind.keyword, ref.target⟩ ∈ broken := by
  unfold brokenReferences at hbroken
  simp only [bind, Except.bind] at hbroken
  split at hbroken
  · cases hbroken
  · rename_i found hfound
    cases hbroken
    obtain ⟨ds, hds, hone⟩ := exists_of_mem_mapM hfound href
    cases htarget : resolveReference t l p ref.target with
    | error cause =>
        rw [htarget] at hone
        cases hone
    | ok target =>
        rw [htarget] at hone
        cases target with
        | some q => exact .inl ⟨q, rfl⟩
        | none =>
            cases hone
            exact .inr (List.mem_flatten.2 ⟨_, hds, List.mem_singleton.2 rfl⟩)

/-- What is listed of the references of a template is listed of the template. -/
theorem exists_of_checkFile {text : List Char} {ds : List Diagnostic}
    (hcheck : (checkFile l p).outcome t = .ok ds) (hread : t.readText p = .ok text) :
    ∃ broken, brokenReferences t l p text = .ok broken ∧ ∀ d ∈ broken, d ∈ ds := by
  have hends : Ends (checkFile l p) ⟨t, []⟩
      (fun ds _ => ∃ broken, brokenReferences t l p text = .ok broken ∧ ∀ d ∈ broken, d ∈ ds)
      fun _ _ => True := by
    unfold checkFile readTemplate
    simp only [ends_bind, Action.ends_files]
    rw [hread]
    simp only [ends_pure, ends_bind, Action.ends_files, Action.ends_orRaise]
    cases hbroken : brokenReferences t l p text with
    | error cause => trivial
    | ok broken =>
        have hmem : ∀ rels : List Diagnostic, ∀ d ∈ broken,
            d ∈ (broken ++ rels).mergeSort fun a b => decide (a.line ≤ b.line) := by
          intro rels d hd
          rw [List.mem_mergeSort]
          exact List.mem_append_left _ hd
        dsimp only
        split
        · simp only [ends_bind, ends_pure, Action.ends_orRaise]
          split
          · exact ⟨broken, rfl, hmem _⟩
          · trivial
        · simp only [ends_bind, ends_pure]
          exact ⟨broken, rfl, hmem _⟩
  exact ends_of_eq_ok hends (Prod.ext hcheck rfl)

/-- Why what a reference leads to may not be loaded: its text starts at the root of the
file system, it goes up, or the file is beside a page that lies below a root, and in no
root. -/
inductive Strays (t : FileTree) (l : Layout) (page : Path) (target : List Char) : Prop
  | absolute (hstart : target.head? = some '/')
  | upward (hup : ['.', '.'] ∈ splitAt '/' target)
  | beside (hdeep : page.parent ∉ l.searchRoots) (hnone : l.inRoots t target = none)
      (hfile : t.hasFile (page.parent / Path.ofChars target).fromTop = true)

/-- **What the checker accepts is loaded, or strays.**  If checking a page lists none of
its references, then each of them is found by the loader that the page is rendered with,
unless it is one of those that the loader looks for in another way. -/
theorem loads_of_checkFile (hl : l.WellFormed) {page : Path} {text : List Char}
    {ds : List Diagnostic} (hcheck : (checkFile l page).outcome t = .ok ds)
    (hclean : ∀ d ∈ ds, ∀ kind : ReferenceKind, d.kind ≠ kind.keyword)
    (hread : t.readText page = .ok text) :
    ∀ ref ∈ references text,
      loaderOf t l.pageRoots (String.ofList ref.target) ≠ .error .notFound ∨
        Strays t l page ref.target := by
  intro ref href
  obtain ⟨broken, hbroken, hlisted⟩ := exists_of_checkFile hcheck hread
  obtain ⟨q, hq⟩ : ∃ q, resolveReference t l page ref.target = .ok (some q) := by
    rcases mem_brokenReferences hbroken href with h | h
    · exact h
    · exact absurd rfl (hclean _ (hlisted _ h) ref.kind)
  by_cases hstart : ref.target.head? = some '/'
  · exact .inr (.absolute hstart)
  by_cases hup : ['.', '.'] ∈ splitAt '/' ref.target
  · exact .inr (.upward hup)
  have hfind : findTemplate t l.pageRoots (String.ofList ref.target) = l.inRoots t ref.target :=
    Layout.findTemplate_eq_inRoots hstart hup
  have hanchor := Path.anchor_ofChars hstart
  have hdown : ".." ∉ (Path.ofChars ref.target).parts := fun h => hup (Path.mem_ofChars_iff.1 h)
  cases hroots : l.inRoots t ref.target with
  | some file =>
      refine .inl fun hnone => ?_
      have hnothing := openSource_notFound_iff.1 (notFound_of_loaderOf hnone)
      rw [hfind, hroots] at hnothing
      cases hnothing
  | none =>
      -- The reference leads to a file, and the roots have none: it is beside the page.
      obtain ⟨c, hc, hresolved, hisFile⟩ := mem_of_firstFile hq
      obtain rfl := Path.eq_fromTop hresolved
      have hfile := hasFile_of_isFile hisFile
      have hnowhere : ∀ root ∈ l.searchRoots,
          t.hasFile (root / Path.ofChars ref.target).fromTop ≠ true := by
        intro root hroot
        rw [Layout.fromTop_join (Layout.isPlain_of_mem_searchRoots hl hroot) hanchor hdown]
        exact List.find?_eq_none.1 hroots _ (List.mem_map.2 ⟨root, hroot, rfl⟩)
      obtain ⟨directory, hdirectory, rfl⟩ := List.mem_map.1 hc
      rcases List.mem_cons.1 hdirectory with rfl | hroot
      · exact .inr (.beside (fun h => hnowhere _ h hfile) hroots hfile)
      · exact absurd hfile (hnowhere _ hroot)

/-- The part beside the page passes the check, and is not found when the page is
rendered. -/
theorem loads_of_checkFile_beside :
    (checkFile Layout.small blogPage).outcome blogFiles = .ok [] ∧
      loaderOf blogFiles Layout.small.pageRoots "side.tmpl" = .error .notFound ∧
      Strays blogFiles Layout.small blogPage "side.tmpl".toList := by
  have hcheck : (checkFile Layout.small blogPage).outcome blogFiles = .ok [] := by decide +kernel
  have hload : loaderOf blogFiles Layout.small.pageRoots "side.tmpl" = .error .notFound := by
    decide +kernel
  have hread : blogFiles.readText blogPage = .ok blogText := by decide +kernel
  have href : ⟨.include, "side.tmpl".toList, 1⟩ ∈ references blogText := by decide +kernel
  refine ⟨hcheck, hload, ?_⟩
  have hcases := loads_of_checkFile Layout.wellFormed_small hcheck (by simp) hread _ href
  exact hcases.resolve_left fun hfound => hfound hload

end Folio
