import Folio.Proofs.Output.Renderings
import Folio.Proofs.Output.Statics

/-!
# Rendered pages come before copies

Two passes fill the output of pages: templates are rendered, and then the pages are copied
that need no rendering.  They share one thing, the names of what was rendered.  A page is
copied only if its own name is not among these, and so each place among the output holds
what the last template with an output there gave, or else the copy of the page with the
same names, or nothing.

A copy may be missing although the page can be read and printed: the path to the copy can
be too long where that to the page is not.
-/

namespace Folio

open Text FileTree

variable {l : Layout} {t₀ t₁ : FileTree} {page : Path} {s s' : Stage} {taken : List String}
  {outs copies : List (Place × ByteArray)} {done : List Path} {names : List String}

/-! ## Copies -/

/-- The page that some names lead to. -/
def Layout.pageAt (l : Layout) (names : List String) : Path :=
  ⟨l.pages.anchor, l.pages.parts ++ names⟩

theorem Layout.pageAt_inj {names' : List String} :
    l.pageAt names = l.pageAt names' ↔ names = names' := by
  unfold Layout.pageAt
  simp

theorem isSource_pageAt_iff {last suffix : String} :
    IsSource t₀ l.pages suffix (l.pageAt (names ++ [last])) ↔
      hasSuffix suffix last.toList ∧ t₀.IsFile (l.pageAt (names ++ [last])).parts := by
  constructor
  · rintro ⟨names', last', hfile, hsuffix, heq⟩
    obtain ⟨rfl, rfl⟩ : names = names' ∧ last = last' := by
      have hnames := List.append_cancel_left (congrArg Path.parts heq)
      obtain ⟨hinit, hlast⟩ := List.append_inj' hnames rfl
      exact ⟨hinit, List.singleton_inj.1 hlast⟩
    exact ⟨hsuffix, hfile⟩
  · rintro ⟨hsuffix, hfile⟩
    exact ⟨names, last, hfile, hsuffix, rfl⟩

/-- The printed text of a page, if it can be read and printed. -/
def printedText (t : FileTree) (page : Path) : Option ByteArray :=
  (t.readText page).toOption.bind printed

/-- What a page is copied as, if it can be read and printed and the path to the copy is not
too long. -/
def copyOf (l : Layout) (t : FileTree) (page : Path) : Option ByteArray :=
  if isTooLong (l.copyOut page) then none else printedText t page

theorem isFile_of_copyOf {content : ByteArray} (hpage : page.IsCanonical)
    (hcopy : copyOf l t₀ page = some content) : t₀.IsFile page.parts := by
  unfold copyOf printedText at hcopy
  split at hcopy
  · cases hcopy
  · cases hread : t₀.readText page with
    | error cause =>
        rw [hread] at hcopy
        cases hcopy
    | ok text =>
        obtain ⟨content, hentry, -⟩ := readText_eq_ok hpage hread
        exact ⟨content, hentry⟩

/-- A page that fails to be copied, although no directory is in the way, has no copy. -/
theorem copyOf_eq_none {t : FileTree} (hsame : t.readText page = t₀.readText page)
    (hfails : FailsToCopy t page (l.copyOut page))
    (hplace : t.entry? (l.copyOut page).parts ≠ some .directory) : copyOf l t₀ page = none := by
  unfold copyOf printedText
  rcases hfails with ⟨cause, hread⟩ | hlong | hdirectory
  · rw [← hsame, hread]
    exact ite_self none
  · rw [if_pos hlong]
  · exact absurd hdirectory hplace

/-! ## One pass over the pages that need no rendering -/

/-- A build that has dealt with the pages `done`, after the tree `t₁` was filled with `outs`:
each of them whose name is not taken has its copy, if there is one. -/
structure Copies (l : Layout) (t₀ t₁ : FileTree) (taken : List String)
    (outs : List (Place × ByteArray)) (earlier done : List Path)
    (copies : List (Place × ByteArray)) (s : Stage) : Prop where
  layout_eq : s.layout = l
  filled : Filled l t₀ (outs ++ copies) s.session.files
  grows : Grows t₁ s.session.files
  lookup_eq : ∀ names, copies.reverse.lookup (l.pagesOut.parts ++ names) =
    if l.pageAt names ∈ done ∧ (l.pageAt names).textBelow l.pages ∉ taken
    then copyOf l t₀ (l.pageAt names) else none
  failures : earlier <+: s.result.failures

namespace Copies

variable {earlier : List Path}

theorem skipped (h : Copies l t₀ t₁ taken outs earlier done copies s)
    (htaken : page.textBelow l.pages ∈ taken) (hlayout : s'.layout = l)
    (hfiles : s'.session.files = s.session.files) (hresult : s'.result = s.result) :
    Copies l t₀ t₁ taken outs earlier (done ++ [page]) copies s' := by
  refine ⟨hlayout, hfiles ▸ h.filled, hfiles ▸ h.grows, fun names => ?_, hresult ▸ h.failures⟩
  rw [h.lookup_eq names]
  refine if_congr ?_ rfl rfl
  rw [List.mem_append, List.mem_singleton, or_and_right]
  refine (or_iff_left ?_).symm
  rintro ⟨hsame, hfree⟩
  exact hfree (hsame ▸ htaken)

theorem copied (h : Copies l t₀ t₁ taken outs earlier done copies s) (hl : l.WellFormed)
    (hapart : l.Apart) (ht₀ : t₀.WellFormed) (hsource : IsSource t₀ l.pages outputSuffix page)
    (hpage : IsStatic l t₀ page names) {content : ByteArray}
    (hfree : page.textBelow l.pages ∉ taken) (hcopy : copyOf l t₀ page = some content)
    (hplace : s.session.files.entry? (l.copyOut page).parts ≠ some .directory)
    (hprints : Prints (l.copyOut page) content s.session.files s'.session.files)
    (hlayout : s'.layout = l) (hresult : s'.result.failures = s.result.failures) :
    Copies l t₀ t₁ taken outs earlier (done ++ [page])
      (copies ++ [((l.copyOut page).parts, content)]) s' := by
  have htarget := hsource.isPageTarget_copyOut ht₀
  refine ⟨hlayout, ?_, h.grows.trans (hprints.grows htarget.ne_nil hplace), fun names' => ?_,
    hresult ▸ h.failures⟩
  · rw [← List.append_assoc]
    exact h.filled.prints hl hapart ht₀ htarget hplace hprints
  · have hat : page = l.pageAt names := hpage.eq
    rw [List.reverse_append, List.reverse_singleton, List.singleton_append, List.lookup_cons,
      hpage.copyOut_eq, hat]
    by_cases hsame : names' = names
    · subst hsame
      rw [beq_self_eq_true, if_pos ⟨by simp, hat ▸ hfree⟩, ← hat, hcopy]
    · have hother : l.pagesOut.parts ++ names' ≠ l.pagesOut.parts ++ names :=
        fun h => hsame (List.append_cancel_left h)
      rw [beq_false_of_ne hother, h.lookup_eq names']
      refine if_congr (and_congr_left fun _ => ?_) rfl rfl
      rw [List.mem_append, List.mem_singleton, Layout.pageAt_inj]
      exact (or_iff_left hsame).symm

theorem failed (h : Copies l t₀ t₁ taken outs earlier done copies s) (hl : l.WellFormed)
    (hapart : l.Apart) (ht₀ : t₀.WellFormed) (hsource : IsSource t₀ l.pages outputSuffix page)
    (hpage : IsStatic l t₀ page names) (hnew : page ∉ done) (hcopy : copyOf l t₀ page = none)
    (hopened : Opened (l.copyOut page).parent.parts s.session.files s'.session.files)
    (hlayout : s'.layout = l) (hresult : s'.result.failures = s.result.failures ++ [page]) :
    Copies l t₀ t₁ taken outs earlier (done ++ [page]) copies s' := by
  have htarget := hsource.isPageTarget_copyOut ht₀
  refine ⟨hlayout, h.filled.opened hl hapart ht₀ htarget hopened, h.grows.trans hopened.grows,
    fun names' => ?_, hresult ▸ h.failures.trans (List.prefix_append ..)⟩
  have hat : page = l.pageAt names := hpage.eq
  rw [h.lookup_eq names']
  by_cases hsame : l.pageAt names' = page
  · rw [hsame, if_neg fun h => hnew h.1, hcopy, ite_self]
  · refine if_congr (and_congr_left fun _ => ?_) rfl rfl
    rw [List.mem_append, List.mem_singleton]
    exact (or_iff_left hsame).symm

/-- One page more has been dealt with. -/
theorem step (h : Copies l t₀ t₁ taken outs earlier done copies s) (hl : l.WellFormed)
    (hapart : l.Apart) (ht₀ : t₀.WellFormed) (hsource : IsSource t₀ l.pages outputSuffix page)
    (hpage : IsStatic l t₀ page names) (hnew : page ∉ done) (hlayout : s'.layout = l)
    (houtcome : StaticOutcome l taken page s s') :
    ∃ copies, Copies l t₀ t₁ taken outs earlier (done ++ [page]) copies s' := by
  have hsame : s.session.files.readText page = t₀.readText page :=
    (h.filled.sameTemplates ht₀ hsource).readText (hsource.covers hl ht₀.named)
  cases houtcome with
  | skipped htaken hfiles hresult => exact ⟨_, h.skipped htaken hlayout hfiles hresult⟩
  | @copied text content hfree hread hprint hshort hplace hprints hresult =>
      have hcopy : copyOf l t₀ page = some content := by
        unfold copyOf printedText
        rw [hshort, ← hsame, hread]
        exact hprint
      exact ⟨_, h.copied hl hapart ht₀ hsource hpage hfree hcopy hplace hprints hlayout
        (by rw [hresult])⟩
  | failed hfree hfails hopened hresult =>
      -- No directory is made in the place of a copy: there is none among the pages.
      have hplace : s.session.files.entry? (l.copyOut page).parts ≠ some .directory := by
        intro hdirectory
        rw [hpage.copyOut_eq] at hdirectory
        obtain ⟨content, hcontent⟩ := hpage.isFile
        rw [h.filled.directory names hpage.ne_nil hdirectory] at hcontent
        cases hcontent
      exact ⟨_, h.failed hl hapart ht₀ hsource hpage hnew (copyOf_eq_none hsame hfails hplace)
        hopened hlayout (by rw [hresult])⟩

/-- After all pages: what was rendered comes first, and then the copies. -/
theorem bytesAt_eq (h : Copies l t₀ t₁ taken outs earlier done copies s) (hl : l.WellFormed)
    (hdone : ∀ p, p ∈ done ↔ IsSource t₀ l.pages outputSuffix p)
    (hempty : ∀ names, names ≠ [] → t₀.entry? (l.pagesOut.parts ++ names) = none)
    (htaken : ∀ below, (∀ name ∈ below, IsFileName name) →
      ("/".intercalate below ∈ taken ↔ l.pagesOut.parts ++ below ∈ outs.map Prod.fst))
    {last : String} (hnames : ∀ name ∈ names ++ [last], IsFileName name) :
    s.session.files.bytesAt (l.pagesOut.parts ++ (names ++ [last])) =
      (outs.reverse.lookup (l.pagesOut.parts ++ (names ++ [last]))).or
        (if hasSuffix outputSuffix last.toList then copyOf l t₀ (l.pageAt (names ++ [last]))
          else none) := by
  have hcopies : copies.reverse.lookup (l.pagesOut.parts ++ (names ++ [last])) =
      if l.pageAt (names ++ [last]) ∈ done ∧
        l.pagesOut.parts ++ (names ++ [last]) ∉ outs.map Prod.fst
      then copyOf l t₀ (l.pageAt (names ++ [last])) else none := by
    rw [h.lookup_eq]
    refine if_congr (and_congr_right fun _ => not_congr ?_) rfl rfl
    rw [← htaken _ hnames, Layout.pageAt, Path.textBelow_append (by simp)]
  rw [h.filled.bytesAt_eq_lookup hempty (by simp), List.reverse_append, List.lookup_append,
    hcopies]
  cases hout : outs.reverse.lookup (l.pagesOut.parts ++ (names ++ [last])) with
  | some content =>
      have hmem : l.pagesOut.parts ++ (names ++ [last]) ∈ outs.map Prod.fst := by
        by_contra hfree
        rw [lookup_reverse_eq_none_iff.2 hfree] at hout
        cases hout
      rw [if_neg fun h => h.2 hmem]
      rfl
  | none =>
      have hlisted : l.pageAt (names ++ [last]) ∈ done ↔
          hasSuffix outputSuffix last.toList ∧ t₀.IsFile (l.pageAt (names ++ [last])).parts :=
        (hdone _).trans isSource_pageAt_iff
      rw [Option.or_none, Option.none_or]
      by_cases hsuffix : hasSuffix outputSuffix last.toList = true
      · rw [if_pos hsuffix]
        by_cases hfile : t₀.IsFile (l.pageAt (names ++ [last])).parts
        · rw [if_pos ⟨hlisted.2 ⟨hsuffix, hfile⟩, lookup_reverse_eq_none_iff.1 hout⟩]
        · -- What is no page at all has no copy.
          rw [if_neg fun h => hfile (hlisted.1 h.1).2]
          refine (Option.eq_none_iff_forall_ne_some.2 fun content hcopy => hfile ?_).symm
          exact isFile_of_copyOf ((hl.rootOf .page).below hnames).isCanonical hcopy
      · rw [if_neg hsuffix, if_neg fun h => hsuffix (hlisted.1 h.1).1]

end Copies

end Folio
