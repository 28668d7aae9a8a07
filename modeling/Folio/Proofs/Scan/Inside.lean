import Folio.Proofs.Output.Templates
import Folio.Proofs.Scan.Closure
import Folio.Proofs.Session.Parallel

/-!
# Searches that stay among the templates

If every path that is tried for a reference lies among the templates, then a search for
dependencies looks at nothing else.  So it comes to the same in two trees that have the
same templates, whatever else is in them: `scan_congr`.

How long a search may go on depends on all files of a tree.  This makes no difference
(`outcome_runSearch_of_le`), since a search comes to its end in any case.
-/

namespace Folio

open Text Source FileTree Folio.Action

variable {t t' : FileTree} {l : Layout} {p q entry : Path}

/-! ## References that lead nowhere else -/

namespace Layout

/-- The paths that are tried for a reference in a file. -/
def tried (l : Layout) (current : Path) (target : List Char) : List Path :=
  (current.parent :: l.searchRoots).map (·.join (Path.ofChars target))

/-- Every path that is tried for a reference in a file of the space lies among the
templates of the space. -/
def RefersInside (l : Layout) (t : FileTree) : Prop :=
  ∀ p text, p.IsCanonical → Path.isUnder l.templates p → t.readText p = .ok text →
    ∀ ref ∈ references text, ∀ c ∈ l.tried p ref.target, ∀ q, c.resolved = .ok q →
      Path.isUnder l.templates q

/-- A path from the root to a place among the templates. -/
structure Holds (l : Layout) (p : Path) : Prop where
  isCanonical : p.IsCanonical
  isUnder : Path.isUnder l.templates p

theorem Holds.covers (h : l.Holds p) : l.Covers p :=
  ⟨h.isCanonical.not_mem, (Path.isUnder_iff.1 h.isUnder).2⟩

theorem isUnder_templates_of_rootOf {kind : RootKind} (h : Path.isUnder (l.rootOf kind) p) :
    Path.isUnder l.templates p := by
  rw [Path.isUnder_iff, anchor_rootOf, parts_rootOf] at h
  exact Path.isUnder_iff.2 ⟨h.1, (List.prefix_append ..).trans h.2⟩

/-- It is only the templates that matter. -/
theorem RefersInside.of_source (h : l.RefersInside t) (ht : t.WellFormed) (ht' : t'.WellFormed)
    (hsame : ∀ q, l.templates.parts <+: q → t.entry? q = t'.entry? q) : l.RefersInside t' := by
  intro p text hp hunder hread
  refine h p text hp hunder ?_
  obtain ⟨content, hentry, -⟩ := readText_eq_ok hp hread
  have hplace := hsame p.parts (Path.isUnder_iff.1 hunder).2
  rw [← hread]
  refine readText_congr (stat_congr hp.not_mem ?_ ?_ hplace)
  · exact ht.directoriesAbove (by rw [hplace, hentry]; simp)
  · exact ht'.directoriesAbove (by rw [hentry]; simp)

end Layout

namespace Layout.RefersInside

variable {text : List Char} {ref : Reference}

/-- A reference leads to the same file in both trees. -/
theorem resolveReference_congr (h : l.RefersInside t) (hsame : l.SameTemplates t t')
    (hp : l.Holds p) (hread : t.readText p = .ok text) (href : ref ∈ references text) :
    resolveReference t l p ref.target = resolveReference t' l p ref.target := by
  have hinside := h p text hp.isCanonical hp.isUnder hread ref href
  refine firstFile_congr fun c hc q hq => hsame.isFile (Holds.covers ⟨?_, hinside c hc q hq⟩)
  exact Path.isCanonical_of_resolved hq

theorem holds_of_refersTo (h : l.RefersInside t) (hp : l.Holds p) (hrefers : RefersTo t l p q) :
    l.Holds q := by
  obtain ⟨text, hread, ref, href, htarget⟩ := hrefers
  obtain ⟨c, hc, hq, -⟩ := mem_of_firstFile htarget
  exact ⟨Path.isCanonical_of_resolved hq,
    h p text hp.isCanonical hp.isUnder hread ref href c hc q hq⟩

end Layout.RefersInside

/-! ## Two searches side by side -/

/-- Two sessions whose files are two given trees. -/
abbrev Over (t t' : FileTree) : Session → Session → Prop :=
  OnFiles fun u u' => u = t ∧ u' = t'

theorem together_followReferences {current : Path} {refs : List Reference}
    (hsame : ∀ ref ∈ refs, resolveReference t l current ref.target =
      resolveReference t' l current ref.target) (search : Search) :
    Together .none (Over t t') (followReferences l current refs search)
      (followReferences l current refs search) := by
  induction refs generalizing search with
  | nil => exact together_pure _
  | cons ref rest ih =>
      obtain ⟨hfirst, hrest⟩ := List.forall_mem_cons.1 hsame
      unfold followReferences
      refine together_files_bind fun u u' hu => ?_
      obtain ⟨rfl, rfl⟩ := hu
      rw [hfirst]
      refine (together_orRaise _).bind fun target => ?_
      cases target with
      | none => exact (together_debug _ _).bind fun _ => ih hrest _
      | some target => exact ih hrest _

theorem together_searchStep (hinside : l.RefersInside t) (hsame : l.SameTemplates t t')
    (search : Search) {next : Path} (hnext : l.Holds next) (pending : List Path) :
    Together .none (Over t t') (searchStep l search next pending)
      (searchStep l search next pending) := by
  unfold searchStep
  refine (togetherYields_orRaise _).bind fun current hcurrent => ?_
  obtain rfl : next = current := by
    rw [hnext.isCanonical.resolved_eq] at hcurrent
    exact Except.ok.inj hcurrent
  split
  · exact together_pure _
  · refine together_files_bind fun u u' hu => ?_
    obtain ⟨rfl, rfl⟩ := hu
    rw [← hsame.readText hnext.covers]
    cases hread : u.readText next with
    | error cause =>
        dsimp only
        split
        · exact (together_debug _ _).bind fun _ => together_pure _
        · exact together_throw _
    | ok text =>
        exact together_followReferences
          (fun ref href => hinside.resolveReference_congr hsame hnext hread href) _

/-- What is pending after a step lies among the templates, if all that was pending
did. -/
theorem holds_of_step {search search' : Search} {next : Path} {pending : List Path}
    (hinside : l.RefersInside t) (hnext : l.Holds next) (hpending : ∀ p ∈ pending, l.Holds p)
    (hstep : StepsTo t l search next pending search') : ∀ p ∈ search'.pending, l.Holds p := by
  cases hstep with
  | known => exact hpending
  | unreadable => exact hpending
  | followed _ hread =>
      intro p hp
      rcases List.mem_append.1 hp with hp | hp
      · exact hinside.holds_of_refersTo hnext
          ((mem_targets_references hread).1 (List.mem_reverse.1 hp))
      · exact hpending p hp

theorem stepsTo_of_outcome {search search' : Search} {next current : Path} {pending : List Path}
    (hnext : next.resolved = .ok current)
    (houtcome : (searchStep l search next pending).outcome t = .ok search') :
    StepsTo t l search current pending search' := by
  have hspec : Ends (searchStep l search next pending) ⟨t, []⟩
      (fun search' s => s.files = t ∧ StepsTo t l search current pending search') _ :=
    searchStep_spec hnext
  rcases hspec.and ((reads_searchStep l search next pending).ends ⟨t, []⟩) with
    ⟨-, ⟨-, hstep⟩, -, h⟩ | ⟨-, -, -, h⟩
  · cases houtcome.symm.trans h
    exact hstep
  · cases houtcome.symm.trans h

theorem together_runSearch (hinside : l.RefersInside t) (hsame : l.SameTemplates t t') (fuel : Nat)
    {search : Search} (hpending : ∀ p ∈ search.pending, l.Holds p) :
    Together .none (Over t t') (runSearch l fuel search) (runSearch l fuel search) := by
  induction fuel generalizing search with
  | zero => exact together_pure _
  | succ fuel ih =>
      unfold runSearch
      split
      · exact together_pure _
      · rename_i next pending hnext
        obtain ⟨hfirst, hrest⟩ := List.forall_mem_cons.1 (hnext ▸ hpending)
        have hstep := together_searchStep hinside hsame search hfirst pending
        have hyields : TogetherYields .none (Over t t') (fun search' => ∀ p ∈ search'.pending,
            l.Holds p) (searchStep l search next pending) (searchStep l search next pending) := by
          refine togetherYields_reads (reads_searchStep _ _ _ _) (reads_searchStep _ _ _ _)
            (fun u u' hu => .of_eq (hstep ⟨u, []⟩ ⟨u', []⟩ hu).outcome_eq) fun u u' v hu hv => ?_
          obtain ⟨rfl, rfl⟩ := hu
          exact holds_of_step hinside hfirst hrest
            (stepsTo_of_outcome hfirst.isCanonical.resolved_eq hv)
        exact hyields.bind fun search' hsearch' => ih hsearch'

/-! ## Searches that go on for longer -/

/-- A search that has come to its end stays there. -/
theorem outcome_runSearch_of_le {fuel more : Nat} (hle : fuel ≤ more) {search : Search}
    (hdone : ∀ search', (runSearch l fuel search).outcome t = .ok search' →
      search'.pending = []) :
    (runSearch l more search).outcome t = (runSearch l fuel search).outcome t := by
  induction fuel generalizing search more with
  | zero =>
      have hnothing : search.pending = [] := hdone search rfl
      cases more with
      | zero => rfl
      | succ more =>
          unfold runSearch
          rw [hnothing]
  | succ fuel ih =>
      obtain ⟨more, rfl⟩ := Nat.exists_eq_add_of_le' (Nat.lt_of_lt_of_le (Nat.succ_pos _) hle)
      unfold runSearch at hdone ⊢
      cases hpending : search.pending with
      | nil => rfl
      | cons next pending =>
          rw [hpending] at hdone
          have hrun : ∀ fuel : Nat,
              (searchStep l search next pending >>= runSearch l fuel).outcome t =
              ((searchStep l search next pending).outcome t).bind
                fun search' => (runSearch l fuel search').outcome t := fun fuel =>
            outcome_bind (reads_searchStep _ _ _ _) (fun _ => reads_runSearch _ _ _) t
          show (searchStep l search next pending >>= runSearch l more).outcome t =
            (searchStep l search next pending >>= runSearch l fuel).outcome t
          have hdone : ∀ search',
              (searchStep l search next pending >>= runSearch l fuel).outcome t = .ok search' →
                search'.pending = [] := hdone
          rw [hrun] at hdone ⊢
          rw [hrun]
          cases hstep : (searchStep l search next pending).outcome t with
          | error e => rfl
          | ok search' =>
              rw [hstep] at hdone
              exact ih (Nat.le_of_succ_le_succ hle) hdone

/-- With as many steps as a search is given, it comes to its end. -/
theorem pending_eq_nil_of_runSearch {search : Search} {root : Path}
    (hentry : entry.resolved = .ok root)
    (hrun : (runSearch l (searchBound t) ⟨[entry], [], Dependencies.empty⟩).outcome t =
      .ok search) :
    search.Sound t l entry root ∧ search.pending = [] := by
  have hspec : Ends (runSearch l (searchBound t) ⟨[entry], [], Dependencies.empty⟩) ⟨t, []⟩
      (fun search s => s.files = t ∧ search.Sound t l entry root ∧ search.pending = []) _ :=
    runSearch_spec hentry (Search.sound_start hentry) Search.affordable_start
  rcases hspec.and ((reads_runSearch l _ _).ends ⟨t, []⟩) with
    ⟨-, ⟨-, hsound, hpending⟩, -, h⟩ | ⟨-, -, -, h⟩
  · cases hrun.symm.trans h
    exact ⟨hsound, hpending⟩
  · cases hrun.symm.trans h

theorem outcome_scan (l : Layout) (entry : Path) (t : FileTree) :
    (scan l entry).outcome t =
      ((runSearch l (searchBound t) ⟨[entry], [], Dependencies.empty⟩).outcome t).map
        (·.found) := by
  unfold scan
  rw [outcome_bind reads_files fun _ => .bind (reads_runSearch _ _ _) fun _ => reads_pure _]
  show (_ >>= _ : Action Dependencies).outcome t = _
  rw [outcome_bind (reads_runSearch _ _ _) fun _ => reads_pure _]
  cases (runSearch l (searchBound t) ⟨[entry], [], Dependencies.empty⟩).outcome t <;> rfl

/-- A template depends on the same files in two trees with the same templates. -/
theorem scan_congr (hinside : l.RefersInside t) (hsame : l.SameTemplates t t')
    (hentry : l.Holds entry) : (scan l entry).outcome t = (scan l entry).outcome t' := by
  have hresolved := hentry.isCanonical.resolved_eq
  have hlonger : ∀ u : FileTree, ∀ fuel ≥ searchBound u,
      (runSearch l fuel ⟨[entry], [], Dependencies.empty⟩).outcome u =
        (runSearch l (searchBound u) ⟨[entry], [], Dependencies.empty⟩).outcome u :=
    fun u fuel hle => outcome_runSearch_of_le hle fun _ h => (pending_eq_nil_of_runSearch hresolved h).2
  have hstart : ∀ p ∈ [entry], l.Holds p := fun p hp => List.mem_singleton.1 hp ▸ hentry
  -- Both searches are given as many steps as the two trees allow together.
  have htogether : Together .none (Over t t') _
      (runSearch l (searchBound t + searchBound t') ⟨[entry], [], Dependencies.empty⟩) :=
    together_runSearch hinside hsame _ hstart
  have hboth := (htogether ⟨t, []⟩ ⟨t', []⟩ ⟨rfl, rfl⟩).outcome_eq
  rw [outcome_scan, outcome_scan, ← hlonger t _ (Nat.le_add_right ..),
    ← hlonger t' _ (Nat.le_add_left ..)]
  exact congrArg (Except.map (·.found)) hboth

/-- The components that a template depends on lie among the templates. -/
theorem holds_of_scan {d : Dependencies} (hentry : l.Holds entry)
    (hscan : (scan l entry).outcome t = .ok d) : ∀ p ∈ d.components, l.Holds p := by
  rw [outcome_scan] at hscan
  cases hrun : (runSearch l (searchBound t) ⟨[entry], [], Dependencies.empty⟩).outcome t with
  | error e => rw [hrun] at hscan; cases hscan
  | ok search =>
      rw [hrun] at hscan
      cases hscan
      have hsound := (pending_eq_nil_of_runSearch hentry.isCanonical.resolved_eq hrun).1
      intro p hp
      obtain ⟨hunder, q, -, hrefers⟩ := (hsound.mem_kind .component (by decide) p).1 hp
      exact ⟨hrefers.isCanonical, Layout.isUnder_templates_of_rootOf hunder⟩

end Folio
