import Folio.Output.Stage
import Folio.Proofs.Session.States

/-!
# Steps of a build

A step is an action on a build in progress.  The rules here say how each of the small
steps ends that `Folio.Output.Stage` gives, so that the larger ones can be read as
what they do to the session, the manifest and the result.
-/

namespace Folio

namespace Step

variable {α : Type} {s : Stage} {E : Failure → Stage → Prop}

@[simp] theorem ends_act {a : Action α} {Q : α → Stage → Prop} :
    Ends (act a) s Q E ↔
      Ends a s.session (fun v session => Q v { s with session := session })
        fun e session => E e { s with session := session } := by
  have hrun : (act a s : Except Failure α × Stage) =
      ((a s.session : Except Failure α × Session).1,
        { s with session := (a s.session : Except Failure α × Session).2 }) := rfl
  rw [ends_iff, ends_iff, hrun]
  rcases (a s.session : Except Failure α × Session) with ⟨_ | v, session⟩ <;> rfl

@[simp] theorem ends_attempt {a : Step α} {Q : Except Failure α → Stage → Prop} :
    Ends (attempt a) s Q E ↔ Ends a s (fun v => Q (.ok v)) fun e => Q (.error e) := by
  have hrun : (attempt a s : Except Failure (Except Failure α) × Stage) =
      (.ok (a s : Except Failure α × Stage).1, (a s : Except Failure α × Stage).2) := rfl
  rw [ends_iff, ends_iff, hrun]
  rcases (a s : Except Failure α × Stage) with ⟨_ | v, s'⟩ <;> rfl

@[simp] theorem ends_orRaise {r : Except Cause α} {Q : α → Stage → Prop} :
    Ends (orRaise r) s Q E ↔
      match r with
      | .ok v => Q v s
      | .error cause => E (.raised cause) s := by
  unfold orRaise
  cases r with
  | ok v => exact ends_act.trans Action.ends_orRaise
  | error cause => exact ends_act.trans Action.ends_orRaise

@[simp] theorem ends_layout {Q : Layout → Stage → Prop} :
    Ends layout s Q E ↔ Q s.layout s := ends_iff

@[simp] theorem ends_files {Q : FileTree → Stage → Prop} :
    Ends files s Q E ↔ Q s.session.files s := ends_iff

@[simp] theorem ends_count {change : BuildResult → BuildResult} {Q : Unit → Stage → Prop} :
    Ends (count change) s Q E ↔ Q () { s with result := change s.result } := ends_iff

@[simp] theorem ends_setManifest {m : Manifest} {Q : Unit → Stage → Prop} :
    Ends (setManifest m) s Q E ↔ Q () { s with manifest := m } := ends_iff

@[simp] theorem ends_stylesheetHref {target : Path} {Q : String → Stage → Prop} :
    Ends (stylesheetHref target) s Q E ↔
      Q (Path.relativeHref Path.top target.parent s.layout.stylesheetOut) s := ends_iff

/-- A build whose failures are noted with those of `s`. -/
def failed (s : Stage) (p : Path) (cause : Cause) : Stage :=
  { s with
    session := { s.session with
      log := s.session.log ++ [⟨.warning, "renderer", s!"Failed rendering {p}: {cause}"⟩] }
    result := { s.result with failures := s.result.failures ++ [p] } }

@[simp] theorem ends_failRendering {p : Path} {cause : Cause} {Q : Unit → Stage → Prop} :
    Ends (failRendering p cause) s Q E ↔ Q () (failed s p cause) := ends_iff

theorem ends_inPages_iff {a : Template.Render α} {Q : α → Stage → Prop} :
    Ends (inPages a) s Q E ↔
      match (a s.pageStore : Except Template.Fault α × Template.Store) with
      | (.ok v, store) => Q v { s with pageStore := store }
      | (.error fault, store) => E (.raised (.template fault)) { s with pageStore := store } := by
  have hrun : (inPages a s : Except Failure α × Stage) =
      ((a s.pageStore : Except Template.Fault α × Template.Store).1.mapError
          fun fault => .raised (.template fault),
        { s with pageStore := (a s.pageStore : Except Template.Fault α × Template.Store).2 }) :=
    rfl
  rw [ends_iff, hrun]
  rcases (a s.pageStore : Except Template.Fault α × Template.Store) with ⟨_ | v, store⟩ <;> rfl

/-- Rendering among the pages changes the store of the pages alone. -/
theorem ends_inPages {a : Template.Render α} {Q : α → Stage → Prop}
    (hok : ∀ v store, Q v { s with pageStore := store })
    (herror : ∀ fault store,
      E (.raised (.template fault)) { s with pageStore := store }) :
    Ends (inPages a) s Q E := by
  rw [ends_inPages_iff]
  rcases (a s.pageStore : Except Template.Fault α × Template.Store) with ⟨fault | v, store⟩
  · exact herror fault store
  · exact hok v store

theorem ends_inPreviews_iff {a : Template.Render α} {Q : α → Stage → Prop} :
    Ends (inPreviews a) s Q E ↔
      match (a s.previewStore : Except Template.Fault α × Template.Store) with
      | (.ok v, store) => Q v { s with previewStore := store }
      | (.error fault, store) =>
          E (.raised (.template fault)) { s with previewStore := store } := by
  have hrun : (inPreviews a s : Except Failure α × Stage) =
      ((a s.previewStore : Except Template.Fault α × Template.Store).1.mapError
          fun fault => .raised (.template fault),
        { s with
          previewStore := (a s.previewStore : Except Template.Fault α × Template.Store).2 }) :=
    rfl
  rw [ends_iff, hrun]
  rcases (a s.previewStore : Except Template.Fault α × Template.Store) with ⟨_ | v, store⟩ <;> rfl

/-- Rendering among the previews changes their store alone. -/
theorem ends_inPreviews {a : Template.Render α} {Q : α → Stage → Prop}
    (hok : ∀ v store, Q v { s with previewStore := store })
    (herror : ∀ fault store,
      E (.raised (.template fault)) { s with previewStore := store }) :
    Ends (inPreviews a) s Q E := by
  rw [ends_inPreviews_iff]
  rcases (a s.previewStore : Except Template.Fault α × Template.Store) with ⟨fault | v, store⟩
  · exact herror fault store
  · exact hok v store

/-- A step is run on a build that has not begun, and the session goes on from there. -/
theorem ends_fromStart {a : Step α} {l : Layout} {titleSuffix : String} {session : Session}
    {Q : α × Stage → Session → Prop} {E : Failure → Session → Prop} :
    Ends (fromStart l titleSuffix a) session Q E ↔
      Ends a (Stage.start session l titleSuffix) (fun v s => Q (v, s) s.session)
        fun e s => E e s.session := by
  have hrun : (fromStart l titleSuffix a session : Except Failure (α × Stage) × Session) =
      ((a (Stage.start session l titleSuffix) : Except Failure α × Stage).1.map
          fun value => (value, (a (Stage.start session l titleSuffix) : Except Failure α × Stage).2),
        (a (Stage.start session l titleSuffix) : Except Failure α × Stage).2.session) := rfl
  rw [ends_iff, ends_iff, hrun]
  rcases (a (Stage.start session l titleSuffix) : Except Failure α × Stage) with ⟨_ | v, s⟩ <;>
    rfl

/-! ## What small steps keep -/

section

variable {I : Stage → Prop}

theorem yields_orRaise (r : Except Cause α) : Yields I (fun v => r = .ok v) (orRaise r) where
  ends s hs := by
    rw [ends_orRaise]
    cases r with
    | ok v => exact ⟨hs, rfl⟩
    | error cause => exact hs

theorem yields_layout {l : Layout} (hI : ∀ s, I s → s.layout = l) : Yields I (· = l) layout :=
  ⟨fun s hs => ends_layout.2 ⟨hs, hI s hs⟩⟩

theorem keeps_layout : Keeps I layout :=
  ⟨fun _ hs => ends_layout.2 hs⟩

theorem keeps_files : Keeps I files :=
  ⟨fun _ hs => ends_files.2 hs⟩

theorem keeps_stylesheetHref (target : Path) : Keeps I (stylesheetHref target) :=
  ⟨fun _ hs => ends_stylesheetHref.2 hs⟩

end

end Step

/-- A build after some reports. -/
def Stage.reporting (s : Stage) (log : List Record) : Stage :=
  { s with session := { s.session with log := log } }

/-- A build in which something more is counted. -/
def Stage.counting (s : Stage) (change : BuildResult → BuildResult) : Stage :=
  { s with result := change s.result }

/-- A build with another manifest. -/
def Stage.recording (s : Stage) (m : Manifest) : Stage :=
  { s with manifest := m }

theorem Action.Reads.ends_act {α : Type} {a : Action α} (ha : a.Reads) (s : Stage) :
    Ends (Step.act a) s
      (fun v s' => a.outcome s.session.files = .ok v ∧ ∃ log, s' = s.reporting log)
      fun e s' => a.outcome s.session.files = .error e ∧ ∃ log, s' = s.reporting log := by
  obtain ⟨log, hrun⟩ := ha s.session.files s.session.log
  rw [Step.ends_act, ends_iff]
  cases houtcome : a.outcome s.session.files with
  | ok v =>
      rw [houtcome] at hrun
      rw [hrun]
      exact ⟨rfl, log, rfl⟩
  | error e =>
      rw [houtcome] at hrun
      rw [hrun]
      exact ⟨rfl, log, rfl⟩

/-- A property of a build that depends neither on what was reported nor on the stores
of templates. -/
structure Lasting (I : Stage → Prop) : Prop where
  of_eq : ∀ {s s' : Stage}, I s → s'.layout = s.layout → s'.manifest = s.manifest →
    s'.session.files = s.session.files → s'.result = s.result → I s'

namespace Lasting

variable {α : Type} {I : Stage → Prop}

theorem reporting (hI : Lasting I) {s : Stage} (hs : I s) (log : List Record) :
    I (s.reporting log) :=
  hI.of_eq hs rfl rfl rfl rfl

theorem yields_reads {P : FileTree → Prop} (hI : Lasting I) (hP : ∀ s, I s → P s.session.files)
    {a : Action α} (ha : a.Reads) :
    Yields I (fun v => ∃ t, P t ∧ a.outcome t = .ok v) (Step.act a) where
  ends s hs := Step.ends_act.2 <| (ha.ends s.session).mono
    (fun _ _ h => ⟨hI.of_eq hs rfl rfl h.1 rfl, s.session.files, hP s hs, h.2⟩)
    fun _ _ h => hI.of_eq hs rfl rfl h.1 rfl

theorem keeps_reads (hI : Lasting I) {a : Action α} (ha : a.Reads) : Keeps I (Step.act a) :=
  (hI.yields_reads (P := fun _ => True) (fun _ _ => trivial) ha).keeps

theorem keeps_inPages (hI : Lasting I) (a : Template.Render α) : Keeps I (Step.inPages a) :=
  ⟨fun _ hs => Step.ends_inPages (fun _ _ => hI.of_eq hs rfl rfl rfl rfl)
    fun _ _ => hI.of_eq hs rfl rfl rfl rfl⟩

theorem keeps_inPreviews (hI : Lasting I) (a : Template.Render α) :
    Keeps I (Step.inPreviews a) :=
  ⟨fun _ hs => Step.ends_inPreviews (fun _ _ => hI.of_eq hs rfl rfl rfl rfl)
    fun _ _ => hI.of_eq hs rfl rfl rfl rfl⟩

end Lasting

end Folio
