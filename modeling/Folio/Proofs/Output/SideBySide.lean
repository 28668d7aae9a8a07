import Folio.Output.Stage
import Folio.Proofs.Session.Parallel

/-!
# Steps side by side

Two builds run `OnStage` if they differ in their sessions alone: they have the same
layout, manifest and result, the same templates have run in both, and their files are
related.  Each small step of a build keeps this, for any relation that is kept by what
it does to the files.
-/

namespace Folio

open Folio.Action

variable {α β : Type} {lost : Lost Failure} {l : Layout} {R R' : FileTree → FileTree → Prop}
  {P : α → Prop}

/-- Two builds of a space that differ in their sessions alone, the files being
related. -/
inductive OnStage (l : Layout) (R : FileTree → FileTree → Prop) : Stage → Stage → Prop
  | intro (s : Stage) (session : Session) (layout_eq : s.layout = l)
      (manifest_eq : s.manifest.layout = l) (files : R s.session.files session.files) :
      OnStage l R s { s with session := session }

namespace OnStage

theorem mono {s s' : Stage} (h : OnStage l R s s') (hR : ∀ t t', R t t' → R' t t') :
    OnStage l R' s s' := by
  obtain ⟨session, hlayout, hmanifest, hfiles⟩ := h
  exact .intro s session hlayout hmanifest (hR _ _ hfiles)

theorem of_files {s s' : Stage} (h : OnStage l R s s')
    (hR : R' s.session.files s'.session.files) : OnStage l R' s s' := by
  obtain ⟨session, hlayout, hmanifest, -⟩ := h
  exact .intro s session hlayout hmanifest hR

theorem files_related {s s' : Stage} (h : OnStage l R s s') :
    R s.session.files s'.session.files := by
  obtain ⟨session, -, -, hfiles⟩ := h
  exact hfiles

end OnStage

namespace Step

/-- An action in the sessions of two builds. -/
theorem parallel_act {a b : Action α} {s s' : Stage} (hs : OnStage l R s s')
    {Q : α → Session → Session → Prop} {E : Session → Session → Prop}
    (h : Parallel lost a b s.session s'.session Q E)
    (hQ : ∀ v t t', Q v t t' → P v ∧ R' t.files t'.files)
    {R'' : FileTree → FileTree → Prop} (hE : ∀ t t', E t t' → R'' t.files t'.files) :
    Parallel lost (act a) (act b) s s' (fun v s s' => P v ∧ OnStage l R' s s')
      (OnStage l R'') := by
  have hrun : ∀ (a : Action α) (s : Stage) r t,
      (a s.session : Except Failure α × Session) = (r, t) →
        (act a s : Except Failure α × Stage) = (r, { s with session := t }) := by
    intro a s r t h
    show ((a s.session : Except Failure α × Session).1,
      { s with session := (a s.session : Except Failure α × Session).2 }) = _
    rw [h]
  obtain ⟨session, hlayout, hmanifest, -⟩ := hs
  cases h with
  | @ok v t t' hleft hright h =>
      refine .ok (hrun a s _ t hleft) (hrun b _ _ t' hright) ⟨(hQ v t t' h).1, ?_⟩
      exact .intro { s with session := t } t' hlayout hmanifest (hQ v t t' h).2
  | @error e t t' hleft hright h =>
      refine .error (hrun a s _ t hleft) (hrun b _ _ t' hright) ?_
      exact .intro { s with session := t } t' hlayout hmanifest (hE t t' h)
  | @left e t hlost hleft => exact .left hlost (hrun a s _ t hleft)
  | @right e t hlost hright => exact .right hlost (hrun b _ _ t hright)

theorem togetherYields_act {a b : Action α} (h : TogetherYields lost (OnFiles R) P a b) :
    TogetherYields lost (OnStage l R) P (act a) (act b) := fun s s' hs =>
  parallel_act hs (h s.session s'.session hs.files_related) (fun _ _ _ h => h) fun _ _ h => h

theorem together_act {a b : Action α} (h : Together lost (OnFiles R) a b) :
    Together lost (OnStage l R) (act a) (act b) :=
  (togetherYields_act h.yields).together

theorem togetherYields_orRaise_alike {r r' : Except Cause α} (h : Alike lost.ofCauses r r') :
    TogetherYields lost (OnStage l R) (fun v => r = .ok v ∧ r' = .ok v) (orRaise r)
      (orRaise r') :=
  togetherYields_act (Action.togetherYields_orRaise_alike h)

theorem togetherYields_orRaise (r : Except Cause α) :
    TogetherYields lost (OnStage l R) (fun v => r = .ok v) (orRaise r) (orRaise r) :=
  togetherYields_act (Action.togetherYields_orRaise r)

/-- An attempt goes on after a failure, so its runs have to fail alike. -/
theorem together_attempt {a b : Step α} (h : Together .none (OnStage l R) a b) :
    Together lost (OnStage l R) (attempt a) (attempt b) := by
  intro s s' hs
  have hrun : ∀ (a : Step α) (s : Stage),
      (attempt a s : Except Failure (Except Failure α) × Stage) =
        (.ok (a s : Except Failure α × Stage).1, (a s : Except Failure α × Stage).2) :=
    fun _ _ => rfl
  cases h s s' hs with
  | ok hleft hright h => exact .ok (by rw [hrun, hleft]) (by rw [hrun, hright]) h
  | error hleft hright h => exact .ok (by rw [hrun, hleft]) (by rw [hrun, hright]) h
  | left hlost => exact hlost.elim
  | right hlost => exact hlost.elim

/-! ## Looking at a build -/

theorem together_layout_bind {f g : Layout → Step α}
    (h : Together lost (OnStage l R) (f l) (g l)) :
    Together lost (OnStage l R) (layout >>= f) (layout >>= g) := by
  intro s s' hs
  have hrun := h s s' hs
  obtain ⟨session, rfl, -, -⟩ := hs
  exact hrun.of_run rfl rfl

theorem together_files_bind {f g : FileTree → Step α}
    (h : ∀ t t', R t t' → Together lost (OnStage l R) (f t) (g t')) :
    Together lost (OnStage l R) (files >>= f) (files >>= g) :=
  fun s s' hs => (h _ _ hs.files_related s s' hs).of_run rfl rfl

theorem parallel_layout_bind {f g : Layout → Step α} {s s' : Stage}
    {Q : α → Stage → Stage → Prop} {E : Stage → Stage → Prop}
    (h : Parallel lost (f s.layout) (g s'.layout) s s' Q E) :
    Parallel lost (layout >>= f) (layout >>= g) s s' Q E :=
  h.of_run rfl rfl

/-- A step is run on a build that has not begun, and the session goes on from there. -/
theorem parallel_fromStart_bind {a : Step α} {k : α × Stage → Action β} {session session' : Session}
    {titleSuffix : String} {Q : α → Stage → Stage → Prop} {Q' : β → Session → Session → Prop}
    (h : Parallel lost a a (Stage.start session l titleSuffix)
      (Stage.start session' l titleSuffix) Q fun _ _ => True)
    (hk : ∀ v s s', Q v s s' →
      Parallel lost (k (v, s)) (k (v, s')) s.session s'.session Q' fun _ _ => True) :
    Parallel lost (fromStart l titleSuffix a >>= k) (fromStart l titleSuffix a >>= k) session
      session' Q' fun _ _ => True := by
  have hrun : ∀ session : Session, ((fromStart l titleSuffix a >>= k) session :
      Except Failure β × Session) =
      match (a (Stage.start session l titleSuffix) : Except Failure α × Stage) with
      | (.ok v, s) => k (v, s) s.session
      | (.error e, s) => (.error e, s.session) := by
    intro session
    show ExceptT.bindCont k
      (fromStart l titleSuffix a session : Except Failure (α × Stage) × Session).1
      (fromStart l titleSuffix a session : Except Failure (α × Stage) × Session).2 = _
    unfold fromStart
    rcases (a (Stage.start session l titleSuffix) : Except Failure α × Stage) with ⟨_ | v, s⟩ <;>
      rfl
  cases h with
  | @ok v s s' hleft hright h =>
      exact (hk v s s' h).of_run (by rw [hrun, hleft]) (by rw [hrun, hright])
  | error hleft hright => exact .error (by rw [hrun, hleft]) (by rw [hrun, hright]) trivial
  | left hlost hleft => exact .left hlost (by rw [hrun, hleft])
  | right hlost hright => exact .right hlost (by rw [hrun, hright])

/-- Two steps that look at the build, but not at its session. -/
theorem together_get_bind {f : Stage → Step α}
    (h : ∀ (s : Stage) (session : Session), s.layout = l → s.manifest.layout = l →
      Together lost (OnStage l R) (f s) (f { s with session := session })) :
    Together lost (OnStage l R) (get >>= f) (get >>= f) := by
  intro s s' hs
  have hrun := fun session hlayout hmanifest => h s session hlayout hmanifest s s' hs
  obtain ⟨session, hlayout, hmanifest, -⟩ := hs
  exact (hrun session hlayout hmanifest).of_run rfl rfl

theorem together_stylesheetHref (target : Path) :
    Together lost (OnStage l R) (stylesheetHref target) (stylesheetHref target) :=
  together_layout_bind (together_pure _)

/-! ## Templates that run -/

theorem together_inPages (a : Template.Render α) :
    Together lost (OnStage l R) (inPages a) (inPages a) := by
  have hrun : ∀ s : Stage, (inPages a s : Except Failure α × Stage) =
      ((a s.pageStore : Except Template.Fault α × Template.Store).1.mapError
          fun fault => .raised (.template fault),
        { s with pageStore := (a s.pageStore : Except Template.Fault α × Template.Store).2 }) :=
    fun _ => rfl
  rintro s _ ⟨session, hlayout, hmanifest, hfiles⟩
  exact .of_alike (hrun s) (hrun _) (.same _)
    (fun _ _ _ => .intro { s with pageStore := _ } session hlayout hmanifest hfiles)
    (.intro { s with pageStore := _ } session hlayout hmanifest hfiles)

theorem together_inPreviews (a : Template.Render α) :
    Together lost (OnStage l R) (inPreviews a) (inPreviews a) := by
  have hrun : ∀ s : Stage, (inPreviews a s : Except Failure α × Stage) =
      ((a s.previewStore : Except Template.Fault α × Template.Store).1.mapError
          fun fault => .raised (.template fault),
        { s with
          previewStore := (a s.previewStore : Except Template.Fault α × Template.Store).2 }) :=
    fun _ => rfl
  rintro s _ ⟨session, hlayout, hmanifest, hfiles⟩
  exact .of_alike (hrun s) (hrun _) (.same _)
    (fun _ _ _ => .intro { s with previewStore := _ } session hlayout hmanifest hfiles)
    (.intro { s with previewStore := _ } session hlayout hmanifest hfiles)

/-! ## Changing a build -/

theorem together_count (change : BuildResult → BuildResult) :
    Together lost (OnStage l R) (count change) (count change) := by
  rintro s _ ⟨session, hlayout, hmanifest, hfiles⟩
  exact .ok rfl rfl
    (.intro { s with result := change s.result } session hlayout hmanifest hfiles)

theorem together_setManifest {m : Manifest} (hm : m.layout = l) :
    Together lost (OnStage l R) (setManifest m) (setManifest m) := by
  rintro s _ ⟨session, hlayout, -, hfiles⟩
  exact .ok rfl rfl (.intro { s with manifest := m } session hlayout hm hfiles)

theorem together_noteFailure (p : Path) :
    Together lost (OnStage l R) (noteFailure p) (noteFailure p) :=
  together_count _

theorem together_failRendering (p : Path) (cause : Cause) :
    Together lost (OnStage l R) (failRendering p cause) (failRendering p cause) :=
  (together_act (together_warn _ _)).bind fun _ => together_noteFailure p

end Step

end Folio
