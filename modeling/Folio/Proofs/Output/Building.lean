import Folio.Build
import Folio.Proofs.Output.Contained

/-!
# The invariant of a build

`Building l t₀ s` says that a build has the layout `l`, and that its files were made
from `t₀` by edits that stay in the output.  What is written in one of the two
directories that the build empties keeps the invariant, and so do the small steps.
-/

namespace Folio

open Text FileTree

variable {l : Layout} {t₀ t t' : FileTree}

/-! ## Targets in the output -/

/-- The two directories that a build empties. -/
inductive Layout.IsRenewed (l : Layout) : Path → Prop
  | pages : l.IsRenewed l.pagesOut
  | components : l.IsRenewed l.componentsOut

namespace Layout.IsRenewed

variable {directory : Path}

theorem owns (h : l.IsRenewed directory) {q : Place} (hq : directory.parts <+: q) : l.Owns q := by
  cases h with
  | pages => exact Or.inl hq
  | components => exact Or.inr (Or.inl hq)

theorem isPlain (h : l.IsRenewed directory) (hl : l.WellFormed) : directory.IsPlain := by
  cases h with
  | pages =>
      have hname : ∀ name ∈ ["pages"], IsFileName name := by decide
      rw [Layout.pagesOut_eq]
      exact hl.output.below hname
  | components =>
      have hname : ∀ name ∈ ["components"], IsFileName name := by decide
      rw [Layout.componentsOut_eq]
      exact hl.output.below hname

theorem parts_eq (h : l.IsRenewed directory) :
    ∃ name, directory.parts = l.output.parts ++ [name] := by
  cases h with
  | pages => exact ⟨"pages", by rw [Layout.pagesOut_eq]⟩
  | components => exact ⟨"components", by rw [Layout.componentsOut_eq]⟩

theorem output_isPrefix (h : l.IsRenewed directory) : l.output.parts <+: directory.parts := by
  obtain ⟨name, hparts⟩ := h.parts_eq
  rw [hparts]
  exact List.prefix_append ..

/-- On the way down to a directory below, all is in the output or above it. -/
theorem owns_or_isPrefix (h : l.IsRenewed directory) {names q : Place}
    (hq : q <+: directory.parts ++ names) : l.Owns q ∨ q <+: l.output.parts := by
  obtain ⟨name, hparts⟩ := h.parts_eq
  rw [hparts] at hq
  exact Layout.owns_or_isPrefix hq fun q' hq' => h.owns (hparts ▸ hq')

end Layout.IsRenewed

/-- No name with the ending of pages is that of a component that goes up. -/
theorem not_isUpName_append_outputSuffix (name : String) :
    ¬ IsUpName (name ++ outputSuffix) := by
  rintro ⟨hsuffix, hdrop⟩
  have hname : name.toList = ['.', '.'] := by
    have hcut : dropSuffix templateSuffix (name.toList ++ outputSuffix.toList) = name.toList := by
      have hend : dropSuffix templateSuffix outputSuffix.toList = [] := by decide
      rw [dropSuffix_append (by decide), hend, List.append_nil]
    rwa [String.toList_append, hcut] at hdrop
  rw [String.toList_append, hname] at hsuffix
  revert hsuffix
  decide +kernel

theorem not_isUpName_of_hasSuffix {name : String} (hsuffix : hasSuffix outputSuffix name.toList) :
    ¬ IsUpName name := by
  have hlength : templateSuffix.toList.length = outputSuffix.toList.length := by decide
  have hne : templateSuffix.toList ≠ outputSuffix.toList := by decide
  exact fun h => hne (eq_of_hasSuffix h.1 hsuffix hlength)

namespace Contained

variable {directory : Path} {names : List String} {last : String}

theorem addsBelow (h : Contained l t₀ t) (hl : l.WellFormed) (hdirectory : l.IsRenewed directory)
    (hnames : ∀ name ∈ names, IsFileName name)
    (hadds : AddsDirectories (directory.parts ++ names) t t') : Contained l t₀ t' :=
  h.addsDirectories hadds ((hdirectory.isPlain hl).below hnames).names fun _ =>
    hdirectory.owns_or_isPrefix

/-- The last name need only be that of a file if the file could be written. -/
theorem writesBelow (h : Contained l t₀ t) (hl : l.WellFormed)
    (hdirectory : l.IsRenewed directory) (hnames : ∀ name ∈ names, IsFileName name)
    (hlast : Path.isUsable last → IsFileName last) (hup : ¬ IsUpName last)
    (hwrites : WritesFile (directory.parts ++ names) (directory.parts ++ (names ++ [last])) t t') :
    Contained l t₀ t' := by
  have hplain := (hdirectory.isPlain hl).below hnames
  refine h.writesFile hwrites hplain.names (fun _ => hdirectory.owns_or_isPrefix)
    (fun husable => ?_) (Or.inl (hdirectory.owns (List.prefix_append ..)))
    fun above name hplace => ?_
  · have hname := hlast (husable last (by simp))
    rw [← List.append_assoc]
    exact (hplain.below fun n hn => List.mem_singleton.1 hn ▸ hname).names
  · rw [← List.append_assoc] at hplace
    have hsame : last = name := List.singleton_inj.1 (List.append_inj' hplace rfl).2
    exact hsame ▸ hup

end Contained

/-! ## Writing in the output -/

/-- A session whose files were made from `t₀` by edits that stay in the output. -/
def Within (l : Layout) (t₀ : FileTree) (s : Session) : Prop :=
  Contained l t₀ s.files

theorem Action.Reads.keeps_within {α : Type} {a : Action α} (ha : a.Reads) :
    Keeps (Within l t₀) a :=
  ha.keeps

theorem ensureDirectory_keeps (hl : l.WellFormed) {directory p : Path} {names : List String}
    (hdirectory : l.IsRenewed directory) (hnames : ∀ name ∈ names, IsFileName name)
    (hp : LeadsDown p (directory.parts ++ names)) :
    Keeps (Within l t₀) (ensureDirectory p) where
  ends _ hs := (ensureDirectory_ends hp).mono
    (fun _ _ hadds => Contained.addsBelow hs hl hdirectory hnames hadds)
    fun _ _ hadds => Contained.addsBelow hs hl hdirectory hnames hadds

/-- The path of a file in one of the two directories, given by names below it. -/
theorem leadsTo_below (hl : l.WellFormed) {directory : Path} {names : List String} {last : String}
    (hdirectory : l.IsRenewed directory) (hnames : ∀ name ∈ names, IsFileName name)
    (hlast : last ≠ "..") :
    LeadsTo ⟨directory.anchor, directory.parts ++ (names ++ [last])⟩ (directory.parts ++ names)
      (directory.parts ++ (names ++ [last])) := by
  have hplain := ((hdirectory.isPlain hl).below hnames).isCanonical
  have hup : ".." ∉ directory.parts ++ names ++ [last] := fun h =>
    (List.mem_append.1 h).elim hplain.not_mem fun h => hlast (List.mem_singleton.1 h).symm
  have hleads : LeadsTo ⟨directory.anchor, directory.parts ++ names ++ [last]⟩ _ _ :=
    LeadsTo.of_not_mem hup
  rwa [List.dropLast_concat, List.append_assoc] at hleads

theorem writePage_keeps (hl : l.WellFormed) {directory : Path} {names : List String}
    {last : String} (hdirectory : l.IsRenewed directory)
    (hnames : ∀ name ∈ names, IsFileName name) (hup : last ≠ "..")
    (hlast : Path.isUsable last → IsFileName last) (hname : ¬ IsUpName last)
    (html : List Char) :
    Keeps (Within l t₀)
      (writePage ⟨directory.anchor, directory.parts ++ (names ++ [last])⟩ html) := by
  refine ⟨fun s hs => ?_⟩
  refine (writePage_ends (leadsTo_below hl hdirectory hnames hup)).mono (fun _ _ hwrites => ?_)
    fun _ _ hadds => ?_
  · exact Contained.writesBelow hs hl hdirectory hnames hlast hname hwrites
  · exact Contained.addsBelow hs hl hdirectory hnames hadds

theorem renewDirectory_keeps (hl : l.WellFormed) {directory : Path}
    (hdirectory : l.IsRenewed directory) : Keeps (Within l t₀) (renewDirectory directory) := by
  have hrenews : ∀ {t t'}, Contained l t₀ t → Renews directory t t' → Contained l t₀ t' := by
    rintro t t' h ⟨t₁, hfirst, hadds⟩
    have h₁ : Contained l t₀ t₁ := by
      rcases hfirst with ⟨rfl, -⟩ | rfl
      · exact h
      · exact h.prune fun q hq => hdirectory.owns hq
    have hnone : ∀ name ∈ ([] : List String), IsFileName name := by simp
    refine h₁.addsBelow hl hdirectory hnone ?_
    rwa [List.append_nil]
  refine ⟨fun s hs => ?_⟩
  refine (renewDirectory_ends (hdirectory.isPlain hl).isCanonical).mono
    (fun _ _ h => hrenews hs h) fun _ s' h => ?_
  rcases h with h | h
  · show Contained l t₀ s'.files
    rw [h]
    exact hs
  · exact hrenews hs h

theorem prepareOutput_keeps (hl : l.WellFormed) : Keeps (Within l t₀) (prepareOutput l) := by
  have houtput : Keeps (Within l t₀) (ensureDirectory l.output) := by
    have hadds : ∀ {t t'}, Contained l t₀ t → AddsDirectories l.output.parts t t' →
        Contained l t₀ t' := fun h hadds =>
      h.addsDirectories hadds hl.output.names fun _ hq => Or.inr hq
    exact ⟨fun _ hs => (ensureDirectory_ends (.of_not_mem hl.output.isCanonical.not_mem)).mono
      (fun _ _ h => hadds hs h) fun _ _ h => hadds hs h⟩
  unfold prepareOutput
  exact .bind houtput fun _ => .bind (renewDirectory_keeps hl .pages) fun _ =>
    renewDirectory_keeps hl .components

/-- One of the files beside the two directories. -/
theorem putsFile_keeps {α : Type} {a : Action α} {name : String} (hl : l.WellFormed)
    (hname : IsFileName name) (hup : ¬ IsUpName name)
    (howned : l.Owns (l.output.parts ++ [name]))
    (ha : ∀ s, Ends a s (fun _ s' => PutsFile (l.output.parts ++ [name]) s.files s'.files)
      fun _ s' => s'.files = s.files) : Keeps (Within l t₀) a := by
  refine ⟨fun s hs => ?_⟩
  refine (ha s).mono (fun _ s' h => ?_) fun _ s' h => ?_
  · show Contained l t₀ s'.files
    rcases h with h | ⟨-, content, h⟩
    · rw [h]
      exact hs
    · rw [h]
      refine Contained.putFile hs ?_ (Or.inl howned) fun above last hplace => ?_
      · exact (hl.output.below fun n hn => List.mem_singleton.1 hn ▸ hname).names
      · have hsame : name = last := List.singleton_inj.1 (List.append_inj' hplace rfl).2
        exact hsame ▸ hup
  · show Contained l t₀ s'.files
    rw [h]
    exact hs

theorem copyStylesheet_keeps (hl : l.WellFormed) : Keeps (Within l t₀) (copyStylesheet l) := by
  have hname : IsFileName stylesheetName := by decide
  have hparts : l.stylesheetOut.parts = l.output.parts ++ [stylesheetName] := by
    rw [Layout.stylesheetOut_eq]
  have hplain : l.stylesheetOut.IsPlain := by
    rw [Layout.stylesheetOut_eq]
    exact hl.output.below fun n hn => List.mem_singleton.1 hn ▸ hname
  refine putsFile_keeps hl hname ?_ (Or.inr (Or.inr (Or.inl hparts.symm))) fun s => ?_
  · rintro ⟨h, -⟩
    revert h
    decide +kernel
  · rw [← hparts]
    exact copyStylesheet_ends hplain.isCanonical

/-! ## The invariant of a build -/

/-- A build of a space whose files were made from `t₀` by edits that stay in the
output. -/
structure Building (l : Layout) (t₀ : FileTree) (s : Stage) : Prop where
  layout_eq : s.layout = l
  manifest_eq : s.manifest.layout = l
  contained : Contained l t₀ s.session.files

/-- What was built and counted does not matter, nor what was recorded. -/
theorem Building.of_eq {s s' : Stage} (h : Building l t₀ s) (hlayout : s'.layout = s.layout)
    (hmanifest : s'.manifest.layout = s.manifest.layout)
    (hfiles : s'.session.files = s.session.files) : Building l t₀ s' :=
  ⟨hlayout.trans h.layout_eq, hmanifest.trans h.manifest_eq, hfiles ▸ h.contained⟩

theorem building_lasting : Lasting (Building l t₀) :=
  ⟨fun h hlayout hmanifest hfiles _ => h.of_eq hlayout (congrArg Manifest.layout hmanifest) hfiles⟩

theorem keeps_act {α : Type} {a : Action α} (ha : Keeps (Within l t₀) a) :
    Keeps (Building l t₀) (Step.act a) where
  ends s hs := Step.ends_act.2 <| (ha.ends s.session hs.contained).mono
    (fun _ _ h => ⟨hs.layout_eq, hs.manifest_eq, h⟩) fun _ _ h =>
      ⟨hs.layout_eq, hs.manifest_eq, h⟩

end Folio
