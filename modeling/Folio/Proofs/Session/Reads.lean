import Folio.Metadata
import Folio.Proofs.Session.Ends
import Folio.Scan

/-!
# Actions that only read

What such an action gives depends on the files alone: not on what was reported
before, and the files stay as they are.  Searching for dependencies, following
relationships and reading frontmatter are of this kind.
-/

namespace Folio

namespace Action

variable {α β : Type}

/-- What an action gives in a tree if nothing was reported before. -/
def outcome (a : Action α) (t : FileTree) : Except Failure α :=
  (a ⟨t, []⟩ : Except Failure α × Session).1

/-- An action that reads files and reports, and does no more. -/
def Reads (a : Action α) : Prop :=
  ∀ t log, ∃ log', (a ⟨t, log⟩ : Except Failure α × Session) = (a.outcome t, ⟨t, log'⟩)

/-- How an action ends that only reads. -/
theorem Reads.ends {a : Action α} (ha : a.Reads) (s : Session) :
    Ends a s (fun v s' => s'.files = s.files ∧ a.outcome s.files = .ok v)
      fun e s' => s'.files = s.files ∧ a.outcome s.files = .error e := by
  obtain ⟨t, log⟩ := s
  obtain ⟨log', hrun⟩ := ha t log
  cases houtcome : a.outcome t with
  | ok v =>
      rw [houtcome] at hrun
      exact .ok hrun ⟨rfl, rfl⟩
  | error e =>
      rw [houtcome] at hrun
      exact .error hrun ⟨rfl, rfl⟩

/-- What holds of the files is kept, and the value is what the action gives in them. -/
theorem Reads.yields {a : Action α} (ha : a.Reads) {P : FileTree → Prop} :
    Yields (fun s : Session => P s.files) (fun v => ∃ t, P t ∧ a.outcome t = .ok v) a where
  ends s hs := (ha.ends s).mono (fun _ _ h => ⟨h.1.symm ▸ hs, s.files, hs, h.2⟩)
    fun _ _ h => h.1.symm ▸ hs

theorem Reads.keeps {a : Action α} (ha : a.Reads) {P : FileTree → Prop} :
    Keeps (fun s : Session => P s.files) a :=
  ha.yields.keeps

/-! ## Building such actions -/

theorem reads_pure (v : α) : Reads (pure v) := fun _ log => ⟨log, rfl⟩

theorem reads_throw (e : Failure) : Reads (throw e : Action α) := fun _ log => ⟨log, rfl⟩

theorem reads_files : Reads files := fun _ log => ⟨log, rfl⟩

theorem reads_report (level : Level) (topic message : String) :
    Reads (report level topic message) := fun _ log => ⟨log ++ [⟨level, topic, message⟩], rfl⟩

theorem reads_debug (topic message : String) : Reads (debug topic message) :=
  reads_report _ _ _

theorem reads_info (topic message : String) : Reads (info topic message) :=
  reads_report _ _ _

theorem reads_warn (topic message : String) : Reads (warn topic message) :=
  reads_report _ _ _

theorem reads_orRaise (r : Except Cause α) : Reads (orRaise r) := by
  cases r with
  | ok v => exact reads_pure v
  | error cause => exact reads_throw _

theorem Reads.bind {a : Action α} {f : α → Action β} (ha : a.Reads) (hf : ∀ v, (f v).Reads) :
    Reads (a >>= f) := by
  have hrun : ∀ t log, ((a >>= f) ⟨t, log⟩ : Except Failure β × Session) =
      ExceptT.bindCont f (a ⟨t, log⟩ : Except Failure α × Session).1
        (a ⟨t, log⟩ : Except Failure α × Session).2 := fun _ _ => rfl
  intro t log
  obtain ⟨log₁, h₁⟩ := ha t log
  obtain ⟨log₂, h₂⟩ := ha t []
  unfold outcome
  rw [hrun, hrun, h₁, h₂]
  cases a.outcome t with
  | error e => exact ⟨log₁, rfl⟩
  | ok v =>
      obtain ⟨log₃, h₃⟩ := hf v t log₁
      obtain ⟨log₄, h₄⟩ := hf v t log₂
      refine ⟨log₃, ?_⟩
      show (f v ⟨t, log₁⟩ : Except Failure β × Session) =
        ((f v ⟨t, log₂⟩ : Except Failure β × Session).1, _)
      rw [h₃, h₄]

/-- An action that does not even read: what it gives depends on nothing, and the files
stay as they are. -/
def Blind (a : Action α) : Prop :=
  ∀ s s' : Session, (a s : Except Failure α × Session).1 = (a s' : Except Failure α × Session).1 ∧
    (a s : Except Failure α × Session).2.files = s.files

theorem Blind.reads {a : Action α} (ha : a.Blind) : a.Reads := by
  intro t log
  obtain ⟨houtcome, hfiles⟩ := ha ⟨t, log⟩ ⟨t, []⟩
  rcases hrun : (a ⟨t, log⟩ : Except Failure α × Session) with ⟨outcome, t', log'⟩
  rw [hrun] at houtcome hfiles
  exact ⟨log', Prod.ext houtcome (congrArg (Session.mk · log') hfiles)⟩

theorem Blind.outcome_eq {a : Action α} (ha : a.Blind) (t t' : FileTree) :
    a.outcome t = a.outcome t' :=
  (ha ⟨t, []⟩ ⟨t', []⟩).1

theorem blind_pure (v : α) : Blind (pure v) := fun _ _ => ⟨rfl, rfl⟩

theorem blind_throw (e : Failure) : Blind (throw e : Action α) := fun _ _ => ⟨rfl, rfl⟩

theorem blind_warn (topic message : String) : Blind (warn topic message) :=
  fun _ _ => ⟨rfl, rfl⟩

theorem blind_orRaise (r : Except Cause α) : Blind (orRaise r) := by
  cases r with
  | ok v => exact blind_pure v
  | error cause => exact blind_throw _

theorem Blind.bind {a : Action α} {f : α → Action β} (ha : a.Blind) (hf : ∀ v, (f v).Blind) :
    Blind (a >>= f) := by
  have hrun : ∀ s, ((a >>= f) s : Except Failure β × Session) =
      ExceptT.bindCont f (a s : Except Failure α × Session).1
        (a s : Except Failure α × Session).2 := fun _ => rfl
  intro s s'
  obtain ⟨houtcome, hfiles⟩ := ha s s'
  rw [hrun, hrun, ← houtcome]
  cases (a s : Except Failure α × Session).1 with
  | error e => exact ⟨rfl, hfiles⟩
  | ok v =>
      obtain ⟨hrest, hkept⟩ := hf v (a s : Except Failure α × Session).2
        (a s' : Except Failure α × Session).2
      exact ⟨hrest, hkept.trans hfiles⟩

/-- If only the first part of an action reads, what that gives decides the outcome. -/
theorem outcome_bind_congr {a : Action α} {f : α → Action β} {t t' : FileTree} (ha : a.Reads)
    (hf : ∀ v, (f v).Blind) (hsame : a.outcome t = a.outcome t') :
    (a >>= f).outcome t = (a >>= f).outcome t' := by
  have hrun : ∀ t, ((a >>= f) ⟨t, []⟩ : Except Failure β × Session) =
      ExceptT.bindCont f (a ⟨t, []⟩ : Except Failure α × Session).1
        (a ⟨t, []⟩ : Except Failure α × Session).2 := fun _ => rfl
  obtain ⟨log, h⟩ := ha t []
  obtain ⟨log', h'⟩ := ha t' []
  unfold outcome
  rw [hrun, hrun, h, h', hsame]
  cases a.outcome t' with
  | error e => rfl
  | ok v => exact (hf v ⟨t, log⟩ ⟨t', log'⟩).1

end Action

open Folio.Action

/-! ## Reading templates and pages -/

theorem reads_followReferences (l : Layout) (current : Path) (refs : List Source.Reference)
    (search : Search) : Reads (followReferences l current refs search) := by
  induction refs generalizing search with
  | nil => exact reads_pure _
  | cons ref rest ih =>
      unfold followReferences
      refine .bind reads_files fun t => .bind (reads_orRaise _) fun target => ?_
      cases target with
      | none => exact .bind (reads_debug _ _) fun _ => ih _
      | some q => exact ih _

theorem reads_searchStep (l : Layout) (search : Search) (next : Path) (pending : List Path) :
    Reads (searchStep l search next pending) := by
  unfold searchStep
  refine .bind (reads_orRaise _) fun current => ?_
  split
  · exact reads_pure _
  · refine .bind reads_files fun t => ?_
    split
    · split
      · exact .bind (reads_debug _ _) fun _ => reads_pure _
      · exact reads_throw _
    · exact reads_followReferences _ _ _ _

theorem reads_runSearch (l : Layout) (fuel : Nat) (search : Search) :
    Reads (runSearch l fuel search) := by
  induction fuel generalizing search with
  | zero => exact reads_pure _
  | succ fuel ih =>
      unfold runSearch
      split
      · exact reads_pure _
      · exact .bind (reads_searchStep _ _ _ _) fun _ => ih _

theorem reads_scan (l : Layout) (entry : Path) : Reads (scan l entry) := by
  unfold scan
  exact .bind reads_files fun _ => .bind (reads_runSearch _ _ _) fun _ => reads_pure _

theorem reads_resolveTargets (l : Layout) (page : Path) (targets : List (List Char)) :
    Reads (resolveTargets l page targets) := by
  induction targets with
  | nil => exact reads_pure _
  | cons target rest ih =>
      unfold resolveTargets
      refine .bind reads_files fun t => .bind (reads_orRaise _) fun found => ?_
      cases found with
      | none => exact .bind (reads_warn _ _) fun _ => ih
      | some found => exact .bind ih fun _ => reads_pure _

theorem reads_pageRelationships (l : Layout) (page : Path) (text : List Char) :
    Reads (pageRelationships l page text) := by
  unfold pageRelationships
  refine .bind (reads_orRaise _) fun targets => ?_
  have hkeys : ∀ r, Reads (do return Text.distinct (← resolveTargets l page (targets.get r))) :=
    fun r => .bind (reads_resolveTargets _ _ _) fun _ => reads_pure _
  exact .bind (hkeys _) fun _ => .bind (hkeys _) fun _ => .bind (hkeys _) fun _ =>
    .bind (hkeys _) fun _ => .bind (hkeys _) fun _ => reads_pure _

theorem reads_frontmatterData (text : List Char) (source : String) :
    Reads (frontmatterData text source) := by
  unfold frontmatterData
  split
  · exact reads_pure _
  · split
    · exact reads_pure _
    · exact reads_pure _
    · exact .bind (reads_warn _ _) fun _ => reads_pure _
    · exact .bind (reads_warn _ _) fun _ => reads_pure _
    · exact reads_throw _

end Folio
