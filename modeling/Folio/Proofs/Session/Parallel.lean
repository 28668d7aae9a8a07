import Folio.Proofs.Session.Reads

/-!
# Two runs side by side

`Parallel lost a b s t Q E` compares the run of `a` from `s` with the run of `b` from
`t`: both give the same value and end in states related by `Q`, or both fail alike and
end in states related by `E`.  Either run may also fail in a way that `lost` allows it,
whatever the other one does; this is how a failure is set aside that ends everything.

`Together lost R a b` says so from all states related by `R`, with `R` between the
states at the end, and `TogetherYields lost R P a b` that the value satisfies `P`, too.
There is one rule for each way to build an action; an attempt needs its two runs to be
compared with nothing lost, since its failure ends nothing.
-/

namespace Folio

/-! ## Outcomes side by side -/

/-- The failures that are set aside in each of two runs. -/
structure Lost (ε : Type) where
  left : ε → Prop
  right : ε → Prop

namespace Lost

variable {δ ε : Type}

/-- No failure is set aside. -/
def none : Lost ε :=
  ⟨fun _ => False, fun _ => False⟩

/-- What is set aside of failures that are taken as others. -/
def under (lost : Lost ε) (f : δ → ε) : Lost δ :=
  ⟨fun e => lost.left (f e), fun e => lost.right (f e)⟩

end Lost

/-- Two outcomes are the same, or one of them is a failure that is set aside. -/
inductive Alike {ε α : Type} (lost : Lost ε) : Except ε α → Except ε α → Prop
  | same (r : Except ε α) : Alike lost r r
  | left {e : ε} {r : Except ε α} (h : lost.left e) : Alike lost (.error e) r
  | right {e : ε} {r : Except ε α} (h : lost.right e) : Alike lost r (.error e)

namespace Alike

variable {δ ε α β : Type} {lost : Lost ε} {r r' : Except ε α}

theorem of_eq (h : r = r') : Alike lost r r' :=
  h ▸ .same r

theorem bind {f g : α → Except ε β} (h : Alike lost r r')
    (hf : ∀ v, r = .ok v → r' = .ok v → Alike lost (f v) (g v)) :
    Alike lost (r >>= f) (r' >>= g) := by
  cases h with
  | same =>
      cases r with
      | ok v => exact hf v rfl rfl
      | error e => exact .same _
  | left h => exact .left h
  | right h => exact .right h

theorem map {f : α → β} (h : Alike lost r r') : Alike lost (r.map f) (r'.map f) := by
  cases h with
  | same => exact .same _
  | left h => exact .left h
  | right h => exact .right h

theorem mapError {f : δ → ε} {r r' : Except δ α} (h : Alike (lost.under f) r r') :
    Alike lost (r.mapError f) (r'.mapError f) := by
  cases h with
  | same => exact .same _
  | left h => exact .left h
  | right h => exact .right h

end Alike

section

variable {σ ε α β : Type}

/-- How the run of `a` from `s` compares with that of `b` from `t`. -/
inductive Parallel (lost : Lost ε) (a b : ExceptT ε (StateM σ) α) (s t : σ)
    (Q : α → σ → σ → Prop) (E : σ → σ → Prop) : Prop
  | ok {v : α} {s' t' : σ} (hleft : (a s : Except ε α × σ) = (.ok v, s'))
      (hright : (b t : Except ε α × σ) = (.ok v, t')) (h : Q v s' t')
  | error {e : ε} {s' t' : σ} (hleft : (a s : Except ε α × σ) = (.error e, s'))
      (hright : (b t : Except ε α × σ) = (.error e, t')) (h : E s' t')
  | left {e : ε} {s' : σ} (hlost : lost.left e) (hleft : (a s : Except ε α × σ) = (.error e, s'))
  | right {e : ε} {t' : σ} (hlost : lost.right e)
      (hright : (b t : Except ε α × σ) = (.error e, t'))

variable {lost : Lost ε} {a b : ExceptT ε (StateM σ) α} {s t : σ}

namespace Parallel

variable {Q Q' : α → σ → σ → Prop} {E E' : σ → σ → Prop}

theorem mono (h : Parallel lost a b s t Q E) (hQ : ∀ v s' t', Q v s' t' → Q' v s' t')
    (hE : ∀ s' t', E s' t' → E' s' t') : Parallel lost a b s t Q' E' := by
  rcases h with ⟨hleft, hright, h⟩ | ⟨hleft, hright, h⟩ | ⟨hlost, hleft⟩ | ⟨hlost, hright⟩
  · exact .ok hleft hright (hQ _ _ _ h)
  · exact .error hleft hright (hE _ _ h)
  · exact .left hlost hleft
  · exact .right hlost hright

/-- Only the runs matter. -/
theorem of_run {a' b' : ExceptT ε (StateM σ) α} {s' t' : σ} (h : Parallel lost a b s t Q E)
    (hleft : (a' s' : Except ε α × σ) = a s) (hright : (b' t' : Except ε α × σ) = b t) :
    Parallel lost a' b' s' t' Q E := by
  rcases h with ⟨hfirst, hsecond, h⟩ | ⟨hfirst, hsecond, h⟩ | ⟨hlost, hfirst⟩ | ⟨hlost, hsecond⟩
  · exact .ok (hleft.trans hfirst) (hright.trans hsecond) h
  · exact .error (hleft.trans hfirst) (hright.trans hsecond) h
  · exact .left hlost (hleft.trans hfirst)
  · exact .right hlost (hright.trans hsecond)

theorem pure {v : α} (h : Q v s t) :
    Parallel lost (Pure.pure v : ExceptT ε (StateM σ) α) (Pure.pure v) s t Q E :=
  .ok rfl rfl h

theorem throw {e : ε} (h : E s t) :
    Parallel lost (MonadExcept.throw e : ExceptT ε (StateM σ) α) (MonadExcept.throw e) s t Q E :=
  .error rfl rfl h

theorem bind {f g : α → ExceptT ε (StateM σ) β} {P : β → σ → σ → Prop}
    (h : Parallel lost a b s t Q E)
    (hf : ∀ v s' t', Q v s' t' → Parallel lost (f v) (g v) s' t' P E) :
    Parallel lost (a >>= f) (b >>= g) s t P E := by
  have hrun : ∀ (a : ExceptT ε (StateM σ) α) (f : α → ExceptT ε (StateM σ) β) s,
      ((a >>= f) s : Except ε β × σ) =
        ExceptT.bindCont f (a s : Except ε α × σ).1 (a s : Except ε α × σ).2 := fun _ _ _ => rfl
  cases h with
  | ok hleft hright h =>
      rcases hf _ _ _ h with ⟨hfirst, hsecond, h⟩ | ⟨hfirst, hsecond, h⟩ | ⟨hlost, hfirst⟩ |
        ⟨hlost, hsecond⟩
      · exact .ok (by rw [hrun, hleft]; exact hfirst) (by rw [hrun, hright]; exact hsecond) h
      · exact .error (by rw [hrun, hleft]; exact hfirst)
          (by rw [hrun, hright]; exact hsecond) h
      · exact .left hlost (by rw [hrun, hleft]; exact hfirst)
      · exact .right hlost (by rw [hrun, hright]; exact hsecond)
  | error hleft hright h =>
      exact .error (by rw [hrun, hleft]; rfl) (by rw [hrun, hright]; rfl) h
  | left hlost hleft => exact .left hlost (by rw [hrun, hleft]; rfl)
  | right hlost hright => exact .right hlost (by rw [hrun, hright]; rfl)

/-- Outcomes that are alike, in states that stay related. -/
theorem of_alike {r r' : Except ε α} {s' t' : σ} (hleft : (a s : Except ε α × σ) = (r, s'))
    (hright : (b t : Except ε α × σ) = (r', t')) (h : Alike lost r r')
    (hQ : ∀ v, r = .ok v → r' = .ok v → Q v s' t') (hE : E s' t') :
    Parallel lost a b s t Q E := by
  cases h with
  | same =>
      cases r with
      | ok v => exact .ok hleft hright (hQ v rfl rfl)
      | error e => exact .error hleft hright hE
  | left h => exact .left h hleft
  | right h => exact .right h hright

/-- With nothing lost, the outcomes are the same. -/
theorem outcome_eq (h : Parallel .none a b s t Q E) :
    (a s : Except ε α × σ).1 = (b t : Except ε α × σ).1 := by
  rcases h with ⟨hleft, hright, -⟩ | ⟨hleft, hright, -⟩ | ⟨hlost, -⟩ | ⟨hlost, -⟩
  · rw [hleft, hright]
  · rw [hleft, hright]
  · exact hlost.elim
  · exact hlost.elim

end Parallel

/-! ## Relations that are kept -/

/-- From states that are related the runs compare, with a value that satisfies `P`, and
end in states that are related. -/
def TogetherYields (lost : Lost ε) (R : σ → σ → Prop) (P : α → Prop)
    (a b : ExceptT ε (StateM σ) α) : Prop :=
  ∀ s t, R s t → Parallel lost a b s t (fun v s' t' => P v ∧ R s' t') R

/-- From states that are related the runs compare, and end in states that are. -/
def Together (lost : Lost ε) (R : σ → σ → Prop) (a b : ExceptT ε (StateM σ) α) : Prop :=
  ∀ s t, R s t → Parallel lost a b s t (fun _ => R) R

variable {R : σ → σ → Prop} {P : α → Prop}

theorem together_pure (v : α) : Together lost R (pure v : ExceptT ε (StateM σ) α) (pure v) :=
  fun _ _ h => .pure h

theorem together_throw (e : ε) :
    Together lost R (throw e : ExceptT ε (StateM σ) α) (throw e) :=
  fun _ _ h => .throw h

theorem TogetherYields.together (h : TogetherYields lost R P a b) : Together lost R a b :=
  fun s t hs => (h s t hs).mono (fun _ _ _ h => h.2) fun _ _ h => h

/-- One pair of runs, of which only the end matters. -/
theorem Together.run (h : Together lost R a b) (hs : R s t) :
    Parallel lost a b s t (fun _ => R) fun _ _ => True :=
  (h s t hs).mono (fun _ _ _ h => h) fun _ _ _ => trivial

theorem TogetherYields.mono {P' : α → Prop} (h : TogetherYields lost R P a b)
    (hP : ∀ v, P v → P' v) : TogetherYields lost R P' a b :=
  fun s t hs => (h s t hs).mono (fun v _ _ h => ⟨hP v h.1, h.2⟩) fun _ _ h => h

theorem Together.yields (h : Together lost R a b) : TogetherYields lost R (fun _ => True) a b :=
  fun s t hs => (h s t hs).mono (fun _ _ _ h => ⟨trivial, h⟩) fun _ _ h => h

theorem Together.bind {f g : α → ExceptT ε (StateM σ) β} (h : Together lost R a b)
    (hf : ∀ v, Together lost R (f v) (g v)) : Together lost R (a >>= f) (b >>= g) :=
  fun s t hs => (h s t hs).bind fun v s' t' => hf v s' t'

theorem TogetherYields.bind {f g : α → ExceptT ε (StateM σ) β} (h : TogetherYields lost R P a b)
    (hf : ∀ v, P v → Together lost R (f v) (g v)) : Together lost R (a >>= f) (b >>= g) :=
  fun s t hs => (h s t hs).bind fun v s' t' h => hf v h.1 s' t' h.2

theorem togetherYields_pure {v : α} (hv : P v) :
    TogetherYields lost R P (pure v : ExceptT ε (StateM σ) α) (pure v) :=
  fun _ _ h => .pure ⟨hv, h⟩

theorem togetherYields_throw (e : ε) :
    TogetherYields lost R P (throw e : ExceptT ε (StateM σ) α) (throw e) :=
  fun _ _ h => .throw h

theorem together_get_bind {f g : σ → ExceptT ε (StateM σ) α}
    (h : ∀ s t, R s t → Parallel lost (f s) (g t) s t (fun _ => R) R) :
    Together lost R (get >>= f) (get >>= g) :=
  fun s t hs => (h s t hs).of_run rfl rfl

theorem together_modify {f g : σ → σ} (h : ∀ s t, R s t → R (f s) (g t)) :
    Together lost R (modify f : ExceptT ε (StateM σ) PUnit) (modify g) :=
  fun s t hs => .ok rfl rfl (h s t hs)

theorem together_forM {f : α → ExceptT ε (StateM σ) PUnit} {xs : List α}
    (hf : ∀ x ∈ xs, Together lost R (f x) (f x)) : Together lost R (xs.forM f) (xs.forM f) := by
  induction xs with
  | nil => exact together_pure _
  | cons x rest ih =>
      obtain ⟨hfirst, hrest⟩ := List.forall_mem_cons.1 hf
      show Together lost R (f x >>= fun _ => rest.forM f) (f x >>= fun _ => rest.forM f)
      exact hfirst.bind fun _ => ih hrest

theorem together_filterMapM {f : α → ExceptT ε (StateM σ) (Option β)} {xs : List α}
    (hf : ∀ x ∈ xs, Together lost R (f x) (f x)) :
    Together lost R (xs.filterMapM f) (xs.filterMapM f) := by
  have hloop : ∀ results : List β, Together lost R
      (List.filterMapM.loop f xs results) (List.filterMapM.loop f xs results) := by
    induction xs with
    | nil => exact fun _ => together_pure _
    | cons x rest ih =>
        obtain ⟨hfirst, hrest⟩ := List.forall_mem_cons.1 hf
        intro results
        unfold List.filterMapM.loop
        refine hfirst.bind fun r => ?_
        cases r with
        | none => exact ih hrest results
        | some y => exact ih hrest (y :: results)
  exact hloop []

end

/-! ## Actions -/

namespace Lost

/-- What is set aside of causes. -/
def ofCauses (lost : Lost Failure) : Lost Cause :=
  lost.under .raised

/-- What is set aside of faults of the file system. -/
def ofFaults (lost : Lost Failure) : Lost FileFault :=
  lost.ofCauses.under .file

end Lost

namespace Action

variable {α β : Type} {lost : Lost Failure} {R : FileTree → FileTree → Prop} {P : α → Prop}

/-- A relation between the files of two sessions. -/
def OnFiles (R : FileTree → FileTree → Prop) (s t : Session) : Prop :=
  R s.files t.files

theorem parallel_files_bind {f g : FileTree → Action α} {s s' : Session}
    {Q : α → Session → Session → Prop} {E : Session → Session → Prop}
    (h : Parallel lost (f s.files) (g s'.files) s s' Q E) :
    Parallel lost (files >>= f) (files >>= g) s s' Q E :=
  h.of_run rfl rfl

theorem parallel_setFiles {t t' : FileTree} (h : R t t') {s s' : Session} :
    Parallel lost (setFiles t) (setFiles t') s s' (fun _ => OnFiles R) fun _ _ => True :=
  .ok rfl rfl h

/-- Two actions that look at the files first. -/
theorem together_files_bind {f g : FileTree → Action α}
    (h : ∀ t t', R t t' → Together lost (OnFiles R) (f t) (g t')) :
    Together lost (OnFiles R) (files >>= f) (files >>= g) :=
  together_get_bind fun s t hs => h s.files t.files hs s t hs

theorem together_setFiles {t t' : FileTree} (h : R t t') :
    Together lost (OnFiles R) (setFiles t) (setFiles t') :=
  together_modify fun _ _ _ => h

theorem together_report (level : Level) (topic message : String) :
    Together lost (OnFiles R) (report level topic message) (report level topic message) :=
  fun _ _ hs => .ok rfl rfl hs

theorem together_warn (topic message : String) :
    Together lost (OnFiles R) (warn topic message) (warn topic message) :=
  together_report _ _ _

theorem together_info (topic message : String) :
    Together lost (OnFiles R) (info topic message) (info topic message) :=
  together_report _ _ _

theorem together_debug (topic message : String) :
    Together lost (OnFiles R) (debug topic message) (debug topic message) :=
  together_report _ _ _

theorem togetherYields_orRaise_alike {r r' : Except Cause α} (h : Alike lost.ofCauses r r') :
    TogetherYields lost (OnFiles R) (fun v => r = .ok v ∧ r' = .ok v) (orRaise r)
      (orRaise r') := by
  cases h with
  | same =>
      cases r with
      | ok v => exact togetherYields_pure ⟨rfl, rfl⟩
      | error cause => exact togetherYields_throw _
  | left hlost => exact fun _ _ _ => .left hlost rfl
  | right hlost => exact fun _ _ _ => .right hlost rfl

theorem togetherYields_orRaise (r : Except Cause α) :
    TogetherYields lost (OnFiles R) (fun v => r = .ok v) (orRaise r) (orRaise r) :=
  (togetherYields_orRaise_alike (.same r)).mono fun _ => And.left

theorem together_orRaise (r : Except Cause α) :
    Together lost (OnFiles R) (orRaise r) (orRaise r) :=
  (togetherYields_orRaise r).together

/-- They yield what the outcome of one of them is known to be. -/
theorem togetherYields_reads {a b : Action α} (ha : a.Reads) (hb : b.Reads)
    (hsame : ∀ t t', R t t' → Alike lost (a.outcome t) (b.outcome t'))
    (hP : ∀ t t' v, R t t' → a.outcome t = .ok v → P v) :
    TogetherYields lost (OnFiles R) P a b := by
  rintro ⟨t, log⟩ ⟨t', log'⟩ hs
  obtain ⟨end₁, hleft⟩ := ha t log
  obtain ⟨end₂, hright⟩ := hb t' log'
  exact .of_alike hleft hright (hsame t t' hs) (fun v hv _ => ⟨hP t t' v hs hv, hs⟩) hs

/-- An attempt goes on after a failure, so its runs have to fail alike. -/
theorem together_attempt {a b : Action α} (h : Together .none (OnFiles R) a b) :
    Together lost (OnFiles R) (attempt a) (attempt b) := by
  intro s t hs
  have hrun : ∀ (a : Action α) (s : Session),
      (attempt a s : Except Failure (Except Failure α) × Session) =
        (.ok (a s : Except Failure α × Session).1, (a s : Except Failure α × Session).2) :=
    fun _ _ => rfl
  cases h s t hs with
  | ok hleft hright h => exact .ok (by rw [hrun, hleft]) (by rw [hrun, hright]) h
  | error hleft hright h => exact .ok (by rw [hrun, hleft]) (by rw [hrun, hright]) h
  | left hlost => exact hlost.elim
  | right hlost => exact hlost.elim

/-! ## Outcomes -/

theorem outcome_bind {a : Action α} {f : α → Action β} (ha : a.Reads) (hf : ∀ v, (f v).Reads)
    (t : FileTree) :
    (a >>= f).outcome t = (a.outcome t).bind fun v => (f v).outcome t := by
  have hrun : ((a >>= f) ⟨t, []⟩ : Except Failure β × Session) =
      ExceptT.bindCont f (a ⟨t, []⟩ : Except Failure α × Session).1
        (a ⟨t, []⟩ : Except Failure α × Session).2 := rfl
  obtain ⟨log, h⟩ := ha t []
  unfold outcome at h ⊢
  rw [hrun, h]
  cases (a ⟨t, []⟩ : Except Failure α × Session).1 with
  | error e => rfl
  | ok v =>
      obtain ⟨log', h'⟩ := hf v t log
      show (f v ⟨t, log⟩ : Except Failure β × Session).1 = (f v).outcome t
      rw [h']

@[simp] theorem outcome_files (t : FileTree) : files.outcome t = .ok t := rfl

@[simp] theorem outcome_pure (v : α) (t : FileTree) : (pure v : Action α).outcome t = .ok v := rfl

end Action

end Folio
