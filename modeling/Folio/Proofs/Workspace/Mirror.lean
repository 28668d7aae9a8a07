import Folio.Proofs.FileTree.Copying
import Folio.Proofs.Output.Building
import Folio.Proofs.Workspace.Configured

/-!
# What copying the output changes

The output of the built-in space is copied to a directory and a file beside it.
`Copied l t t'` says that `t'` was made from `t` by such copies: elsewhere all is as it
was, but for directories above the copies that were missing, and a tree that held
together still does.
-/

namespace Folio

open FileTree

/-- Where a path in the sentinel directory leads. -/
theorem Path.joinText_sentinel {base : Path} {name : String} (hname : IsFileName name) :
    base / sentinelName / name = ⟨base.anchor, base.parts ++ [sentinelName, name]⟩ := by
  have hsentinel : IsFileName sentinelName := by decide
  rw [Path.joinText_name hsentinel, Path.joinText_name hname, List.append_assoc]
  rfl

namespace Layout

variable {l : Layout}

/-- Where the rendered pages are copied to. -/
def pagesCopy (l : Layout) : Place :=
  l.workspace.parts ++ [sentinelName, "design_iterations"]

/-- Where the stylesheet of the output is copied to. -/
def stylesheetCopy (l : Layout) : Place :=
  l.workspace.parts ++ [sentinelName, stylesheetName]

theorem div_mirrorName :
    l.workspace / mirrorName = ⟨l.workspace.anchor, l.pagesCopy⟩ := by
  have hnames : ∀ name ∈ [sentinelName, "design_iterations"], IsFileName name := by decide
  exact Path.joinText_intercalate hnames

theorem div_stylesheetName :
    l.workspace / sentinelName / stylesheetName = ⟨l.workspace.anchor, l.stylesheetCopy⟩ := by
  have hname : IsFileName stylesheetName := by decide
  exact Path.joinText_sentinel hname

end Layout

/-- A tree that was made from another by copying the output of a space. -/
structure Copied (l : Layout) (t t' : FileTree) : Prop where
  named : t.Named → t'.Named
  wellFormed : t.WellFormed → t'.WellFormed
  entry?_or : ∀ q, ¬ l.pagesCopy <+: q → q ≠ l.stylesheetCopy →
    t'.entry? q = t.entry? q ∨
      q <+: l.pagesCopy ∧ t.entry? q = none ∧ t'.entry? q = some .directory

namespace Copied

variable {l : Layout} {t t' t'' : FileTree} {q : Place}

theorem refl (t : FileTree) : Copied l t t :=
  ⟨id, id, fun _ _ _ => .inl rfl⟩

theorem trans (h : Copied l t t') (h' : Copied l t' t'') : Copied l t t'' where
  named ht := h'.named (h.named ht)
  wellFormed ht := h'.wellFormed (h.wellFormed ht)
  entry?_or q hpages hstyles := by
    rcases h.entry?_or q hpages hstyles with hfirst | ⟨hway, hnone, hmade⟩
    · rw [← hfirst]
      exact h'.entry?_or q hpages hstyles
    · rcases h'.entry?_or q hpages hstyles with hsecond | ⟨-, hnone', -⟩
      · exact .inr ⟨hway, hnone, hsecond.trans hmade⟩
      · rw [hmade] at hnone'
        cases hnone'

theorem prune (t : FileTree) : Copied l t (t.prune l.pagesCopy) where
  named := named_prune
  wellFormed := WellFormed.prune
  entry?_or _ hpages _ := .inl (entry?_prune_of_not_isPrefix hpages)

theorem dropDirectory {target : Path} (htarget : target.IsPlain)
    (hplace : target.parts = l.pagesCopy) (hdrop : t.dropDirectory target = .ok t') :
    Copied l t t' := by
  rcases dropDirectory_eq_ok htarget.isCanonical hdrop with ⟨rfl, -⟩ | rfl
  · exact .refl t'
  · exact hplace ▸ .prune t

theorem copyDirectory {target : Path} (htarget : target.IsPlain)
    (hplace : target.parts = l.pagesCopy) (source : Path) :
    Copied l t (t.copyDirectory source target).1 where
  named ht := named_copyDirectory ht htarget
  wellFormed ht := ht.copyDirectory htarget (by simp [hplace, Layout.pagesCopy])
  entry?_or q hpages _ := by
    rw [← hplace] at hpages ⊢
    exact entry?_copyDirectory t source htarget.isCanonical hpages

theorem copyFile {source target : Path} (htarget : target.IsPlain)
    (hplace : target.parts = l.stylesheetCopy) (hcopy : t.copyFile source target = .ok t') :
    Copied l t t' := by
  obtain ⟨hlocate, hfree, content, -, rfl⟩ := copyFile_eq_ok htarget.isCanonical hcopy
  have hroot : target.parts ≠ [] := by simp [hplace, Layout.stylesheetCopy]
  have habove := entry?_parent_of_locate htarget.isCanonical.not_mem hroot hlocate
  refine ⟨fun ht => named_put ht htarget.names, fun ht => ?_, fun q _ hstyles => .inl ?_⟩
  · exact ht.put htarget.names habove (.inr hfree)
  · exact entry?_put_of_ne fun h => hstyles (h.trans hplace)

end Copied

/-! ## Copying the output -/

section

variable {l : Layout} {t₀ : FileTree}

/-- A session whose files were made from `t₀` by copying the output of a space. -/
def CopiedIn (l : Layout) (t₀ : FileTree) (s : Session) : Prop :=
  Copied l t₀ s.files

theorem replaceCopy_keeps {target : Path} (htarget : target.IsPlain)
    (hplace : target.parts = l.pagesCopy) : Keeps (CopiedIn l t₀) (replaceCopy l target) := by
  refine ⟨fun s hs => ?_⟩
  unfold replaceCopy
  simp only [ends_bind, Action.ends_files]
  split
  · exact ends_failBuild fun _ => hs
  · rename_i t hdrop
    have hcopied := (Copied.dropDirectory htarget hplace hdrop).trans
      (.copyDirectory htarget hplace l.pagesOut)
    simp only [ends_bind, Action.ends_setFiles]
    split
    · exact ends_failBuild fun _ => hs.trans hcopied
    · exact ends_pure.2 (hs.trans hcopied)

theorem copyOutputStylesheet_keeps
    (htarget : (l.workspace / sentinelName / stylesheetName).IsPlain) :
    Keeps (CopiedIn l t₀) (copyOutputStylesheet l) := by
  have hplace : (l.workspace / sentinelName / stylesheetName).parts = l.stylesheetCopy := by
    rw [Layout.div_stylesheetName]
  refine ⟨fun s hs => ?_⟩
  unfold copyOutputStylesheet
  simp only [ends_bind, Action.ends_files, Action.ends_orRaise]
  split
  · split
    · split
      · rename_i t hcopy
        exact Action.ends_setFiles.2 (hs.trans (.copyFile htarget hplace hcopy))
      · exact Action.ends_warn.2 hs
    · exact Action.ends_warn.2 hs
  · exact hs

theorem mirrorOutput_keeps (hl : l.workspace.IsPlain) :
    Keeps (CopiedIn l t₀) (mirrorOutput l) := by
  have hmirror : ∀ name ∈ [sentinelName, "design_iterations"], IsFileName name := by decide
  have hstyles : ∀ name ∈ [sentinelName, stylesheetName], IsFileName name := by decide
  have hpages : (l.workspace / mirrorName).IsPlain := Layout.div_mirrorName ▸ hl.below hmirror
  have htarget : (l.workspace / sentinelName / stylesheetName).IsPlain :=
    Layout.div_stylesheetName ▸ hl.below hstyles
  unfold mirrorOutput
  refine .bind (replaceCopy_keeps hpages (by rw [Layout.div_mirrorName])) fun _ => ?_
  refine .bind (Action.reads_info _ _).keeps fun _ => ?_
  exact .bind (copyOutputStylesheet_keeps htarget) fun _ => keeps_pure _

end

end Folio
