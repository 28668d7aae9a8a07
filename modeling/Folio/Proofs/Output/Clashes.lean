import Folio.Proofs.Output.Jobs

/-!
# Outputs that clash

A build renders templates among the pages, and components in their states.  Where an
output goes is computed from names, and two things are lost on the way.

* The ending of a template is matched in any letter case and dropped, so two pages can
  differ in nothing but the spelling of their endings.
* The name of a component is read as a path, and reading drops what is empty or a dot, so
  components in different files can be called alike.

Nothing else is lost.  The names that lead to an output (`Job.trail`) give both its key in
the manifest and, unless it goes up, its place among the files, and two jobs have the
same names if and only if they are of these two kinds (`Job.trail_eq_iff`).
-/

namespace Folio

open Text FileTree

variable {l : Layout} {t : FileTree}

/-- What a build renders: a page, or a component in one of its states. -/
inductive Job
  | page (p : Path)
  | preview (q : Preview)

namespace Job

variable {j j' : Job}

/-- The template of a job, with the state that it is rendered in if it is a component. -/
def source : Job → Path × Option String
  | page p => (p, none)
  | preview q => (q.component.file, some q.state.name)

/-- What the manifest knows the output of a job by. -/
def key (l : Layout) : Job → String
  | page p => "pages/" ++ l.pageName p
  | preview q => "components/" ++ q.rel l

/-- Where the output of a job is among the files. -/
def place (l : Layout) : Job → Place
  | page p => (l.pageOut p).parts
  | preview q => q.place l

/-- Whether a job is a page. -/
def isPage : Job → Bool
  | page _ => true
  | preview _ => false

/-- A job with output that goes up a directory. -/
def GoesUp : Job → Prop
  | page _ => False
  | preview q => q.component.GoesUp

/-- The names that lead to an output from the output directory. -/
def trail (l : Layout) : Job → List String
  | page p => "pages" :: (p.parent.parts.drop l.pages.parts.length ++ [renderedName p.name])
  | preview q =>
      "components" :: ((Path.ofString q.component.id).parts ++ [q.state.name ++ outputSuffix])

/-- A job that is called by names that files and states can have. -/
inductive Called (l : Layout) : Job → Prop
  | page {names : List String} {last : String}
      (hnames : ∀ name ∈ names ++ [last], IsFileName name)
      (hsuffix : hasSuffix templateSuffix last.toList) :
      Called l (page ⟨l.pages.anchor, l.pages.parts ++ (names ++ [last])⟩)
  | preview {q : Preview} {names : List String} {last : String}
      (hc : IsComponent q.component names last) (hstate : isStateName q.state.name) :
      Called l (preview q)

theorem trail_page {names : List String} {last : String} :
    trail l (page ⟨l.pages.anchor, l.pages.parts ++ (names ++ [last])⟩) =
      "pages" :: (names ++ [renderedName last]) := by
  simp only [trail, Path.parent_append, Path.name_append, List.drop_left]

theorem trail_preview {q : Preview} {names : List String} {last : String}
    (hc : IsComponent q.component names last) :
    trail l (preview q) =
      "components" :: (names ++ stemNames last ++ [q.state.name ++ outputSuffix]) := by
  simp only [trail, hc.id_eq]

namespace Called

theorem isCanonical {p : Path} (h : (Job.page p).Called l) (hl : l.WellFormed) : p.IsCanonical := by
  obtain @⟨names, last, hnames, -⟩ := h
  exact ((hl.rootOf .page).below hnames).isCanonical

/-- The manifest computes the key of a page from its template. -/
theorem pageKey_eq {p : Path} (h : (Job.page p).Called l) :
    l.pageKey? p = some ((Job.page p).key l) := by
  obtain @⟨names, last, -, hsuffix⟩ := h
  exact Folio.pageKey_eq hsuffix

/-- An output that does not go up lies where the names lead. -/
theorem place_eq (h : j.Called l) (hl : l.WellFormed) (hup : ¬ j.GoesUp) :
    j.place l = l.output.parts ++ j.trail l := by
  cases h with
  | @page names last hnames hsuffix =>
      have hout : l.pageOut ⟨l.pages.anchor, l.pages.parts ++ (names ++ [last])⟩ = _ :=
        joinText_renderedName l.pagesOut hnames hsuffix
      simp only [place]
      rw [hout, trail_page, Layout.pagesOut_eq]
      simp
  | @preview q names last hc hstate =>
      have hplain := Layout.IsRenewed.components.isPlain hl
      have hplace : q.place l = _ :=
        hc.place_of_not_isUpName hplain hstate (hup ∘ hc.goesUp_iff.2)
      simp only [place]
      rw [hplace, trail_preview hc, Layout.parts_componentsOut]
      simp

end Called

end Job

end Folio
