import Folio.Session
import Mathlib.Data.List.Basic

/-!
# How an action ends

An action runs on a state, and ends in a state with a value or with a failure.
`Ends a s Q E` says that the run of `a` from `s` satisfies `Q` in the one case and
`E` in the other.  Nothing diverges, so `Ends a s Q fun _ _ => False` says that `a`
gives a value.

There is one equation for each way to build an action, and the rules for loops
carry an invariant over the members that are done.  All are stated for any state,
since actions of a session and steps of a build are built alike.
-/

namespace Folio

section

variable {σ ε α β : Type}

/-- The run of `a` from `s` ends with a value and a state that satisfy `Q`, or with
a failure and a state that satisfy `E`. -/
inductive Ends (a : ExceptT ε (StateM σ) α) (s : σ) (Q : α → σ → Prop) (E : ε → σ → Prop) : Prop
  | ok {v : α} {s' : σ} (hrun : (a s : Except ε α × σ) = (.ok v, s')) (hQ : Q v s')
  | error {e : ε} {s' : σ} (hrun : (a s : Except ε α × σ) = (.error e, s')) (hE : E e s')

theorem ends_iff {a : ExceptT ε (StateM σ) α} {s : σ} {Q : α → σ → Prop} {E : ε → σ → Prop} :
    Ends a s Q E ↔
      match (a s : Except ε α × σ) with
      | (.ok v, s') => Q v s'
      | (.error e, s') => E e s' := by
  constructor
  · rintro (⟨hrun, h⟩ | ⟨hrun, h⟩)
    · rw [hrun]
      exact h
    · rw [hrun]
      exact h
  · intro h
    split at h
    · rename_i hrun
      exact .ok hrun h
    · rename_i hrun
      exact .error hrun h

/-- What can be decided of an end can be decided of a run. -/
instance {a : ExceptT ε (StateM σ) α} {s : σ} {Q : α → σ → Prop} {E : ε → σ → Prop}
    [∀ v s', Decidable (Q v s')] [∀ e s', Decidable (E e s')] : Decidable (Ends a s Q E) :=
  match hrun : (a s : Except ε α × σ) with
  | (.ok v, s') => decidable_of_iff (Q v s') (by rw [ends_iff, hrun])
  | (.error e, s') => decidable_of_iff (E e s') (by rw [ends_iff, hrun])

theorem ends_of_eq_ok {a : ExceptT ε (StateM σ) α} {s s' : σ} {v : α} {Q : α → σ → Prop}
    {E : ε → σ → Prop} (h : Ends a s Q E) (hrun : (a s : Except ε α × σ) = (.ok v, s')) :
    Q v s' := by
  rw [ends_iff, hrun] at h
  exact h

/-- An action that ends with a value in every case gives one. -/
theorem Ends.exists_ok {a : ExceptT ε (StateM σ) α} {s : σ} {Q : α → σ → Prop}
    (h : Ends a s Q fun _ _ => False) :
    ∃ v s', (a s : Except ε α × σ) = (.ok v, s') ∧ Q v s' := by
  rcases h with ⟨hrun, h⟩ | ⟨-, h⟩
  · exact ⟨_, _, hrun, h⟩
  · exact h.elim

theorem Ends.mono {a : ExceptT ε (StateM σ) α} {s : σ} {Q Q' : α → σ → Prop}
    {E E' : ε → σ → Prop} (h : Ends a s Q E) (hQ : ∀ v s', Q v s' → Q' v s')
    (hE : ∀ e s', E e s' → E' e s') : Ends a s Q' E' := by
  rcases h with ⟨hrun, h⟩ | ⟨hrun, h⟩
  · exact .ok hrun (hQ _ _ h)
  · exact .error hrun (hE _ _ h)

theorem Ends.and {a : ExceptT ε (StateM σ) α} {s : σ} {Q Q' : α → σ → Prop}
    {E E' : ε → σ → Prop} (h : Ends a s Q E) (h' : Ends a s Q' E') :
    Ends a s (fun v s => Q v s ∧ Q' v s) fun e s => E e s ∧ E' e s := by
  rw [ends_iff] at h h' ⊢
  split
  · rename_i hrun
    rw [hrun] at h h'
    exact ⟨h, h'⟩
  · rename_i hrun
    rw [hrun] at h h'
    exact ⟨h, h'⟩

/-! ## Building actions -/

variable {s : σ} {E : ε → σ → Prop}

@[simp] theorem ends_pure {v : α} {Q : α → σ → Prop} :
    Ends (pure v : ExceptT ε (StateM σ) α) s Q E ↔ Q v s := ends_iff

@[simp] theorem ends_throw {e : ε} {Q : α → σ → Prop} :
    Ends (throw e : ExceptT ε (StateM σ) α) s Q E ↔ E e s := ends_iff

@[simp] theorem ends_bind {a : ExceptT ε (StateM σ) α} {f : α → ExceptT ε (StateM σ) β}
    {Q : β → σ → Prop} :
    Ends (a >>= f) s Q E ↔ Ends a s (fun v s' => Ends (f v) s' Q E) E := by
  have hrun : ((a >>= f) s : Except ε β × σ) =
      ExceptT.bindCont f (a s : Except ε α × σ).1 (a s : Except ε α × σ).2 := rfl
  rw [ends_iff, ends_iff, hrun]
  rcases (a s : Except ε α × σ) with ⟨_ | v, s'⟩
  · rfl
  · exact ends_iff.symm

@[simp] theorem ends_get {Q : σ → σ → Prop} :
    Ends (get : ExceptT ε (StateM σ) σ) s Q E ↔ Q s s := ends_iff

@[simp] theorem ends_modify {f : σ → σ} {Q : PUnit → σ → Prop} :
    Ends (modify f : ExceptT ε (StateM σ) PUnit) s Q E ↔ Q ⟨⟩ (f s) := ends_iff

theorem ends_forM {f : α → ExceptT ε (StateM σ) PUnit} {xs : List α} (I : List α → σ → Prop)
    (hstart : I [] s)
    (hstep : ∀ done x rest s, xs = done ++ x :: rest → I done s →
      Ends (f x) s (fun _ s' => I (done ++ [x]) s') E) :
    Ends (xs.forM f) s (fun _ s' => I xs s') E := by
  have hloop : ∀ rest done s, xs = done ++ rest → I done s →
      Ends (rest.forM f) s (fun _ s' => I xs s') E := by
    intro rest
    induction rest with
    | nil =>
        intro done s hxs hdone
        rw [List.append_nil] at hxs
        subst hxs
        exact ends_pure.2 hdone
    | cons x rest ih =>
        intro done s hxs hdone
        show Ends (f x >>= fun _ => rest.forM f) s _ E
        rw [ends_bind]
        refine (hstep done x rest s hxs hdone).mono (fun _ s' hnext => ?_) fun _ _ h => h
        exact ih (done ++ [x]) s' (by simp [hxs]) hnext
  exact hloop xs [] s rfl hstart

theorem ends_filterMapM {f : α → ExceptT ε (StateM σ) (Option β)} {xs : List α}
    (I : List α → List β → σ → Prop) (hstart : I [] [] s)
    (hstep : ∀ done x rest results s, xs = done ++ x :: rest → I done results s →
      Ends (f x) s (fun r s' => I (done ++ [x]) (results ++ r.toList) s') E) :
    Ends (xs.filterMapM f) s (fun results s' => I xs results s') E := by
  have hloop : ∀ rest done results s, xs = done ++ rest → I done results.reverse s →
      Ends (List.filterMapM.loop f rest results) s (fun results s' => I xs results s') E := by
    intro rest
    induction rest with
    | nil =>
        intro done results s hxs hdone
        rw [List.append_nil] at hxs
        subst hxs
        exact ends_pure.2 hdone
    | cons x rest ih =>
        intro done results s hxs hdone
        unfold List.filterMapM.loop
        rw [ends_bind]
        refine (hstep done x rest _ s hxs hdone).mono (fun r s' hnext => ?_) fun _ _ h => h
        cases r with
        | none => exact ih (done ++ [x]) results s' (by simp [hxs]) (by simpa using hnext)
        | some y => exact ih (done ++ [x]) (y :: results) s' (by simp [hxs]) (by simpa using hnext)
  exact hloop xs [] [] s rfl hstart

/-- A loop over the members of a list that gives nothing. -/
theorem ends_forIn {f : α → ExceptT ε (StateM σ) PUnit} {xs : List α} (I : σ → Prop)
    (hstart : I s) (hstep : ∀ x s, I s → Ends (f x) s (fun _ s' => I s') E) :
    Ends (forIn xs PUnit.unit fun x _ => do f x; pure (ForInStep.yield PUnit.unit)) s
      (fun _ s' => I s') E := by
  induction xs generalizing s with
  | nil => exact ends_pure.2 hstart
  | cons x rest ih =>
      rw [List.forIn_cons]
      simp only [ends_bind, ends_pure]
      exact (hstep x s hstart).mono (fun _ _ hnext => ih hnext) fun _ _ h => h

/-! ## What is kept

An invariant of a build holds after it whether the build gives a result or fails. -/

/-- Wherever `I` holds, it holds after the action, in whichever way that ends. -/
structure Keeps (I : σ → Prop) (a : ExceptT ε (StateM σ) α) : Prop where
  ends : ∀ s, I s → Ends a s (fun _ => I) fun _ => I

/-- Wherever `I` holds, it holds after the action, and a value that this gives
satisfies `P`. -/
structure Yields (I : σ → Prop) (P : α → Prop) (a : ExceptT ε (StateM σ) α) : Prop where
  ends : ∀ s, I s → Ends a s (fun v s' => I s' ∧ P v) fun _ => I

variable {I : σ → Prop}

theorem keeps_pure (v : α) : Keeps I (pure v : ExceptT ε (StateM σ) α) :=
  ⟨fun _ hs => ends_pure.2 hs⟩

theorem keeps_throw (e : ε) : Keeps I (throw e : ExceptT ε (StateM σ) α) :=
  ⟨fun _ hs => ends_throw.2 hs⟩

theorem Keeps.bind {a : ExceptT ε (StateM σ) α} {f : α → ExceptT ε (StateM σ) β}
    (ha : Keeps I a) (hf : ∀ v, Keeps I (f v)) : Keeps I (a >>= f) where
  ends s hs := ends_bind.2 <|
    (ha.ends s hs).mono (fun v s' hs' => (hf v).ends s' hs') fun _ _ h => h

theorem Yields.bind {P : α → Prop} {a : ExceptT ε (StateM σ) α}
    {f : α → ExceptT ε (StateM σ) β} (ha : Yields I P a) (hf : ∀ v, P v → Keeps I (f v)) :
    Keeps I (a >>= f) where
  ends s hs := ends_bind.2 <|
    (ha.ends s hs).mono (fun v s' hs' => (hf v hs'.2).ends s' hs'.1) fun _ _ h => h

theorem Yields.keeps {P : α → Prop} {a : ExceptT ε (StateM σ) α} (ha : Yields I P a) :
    Keeps I a where
  ends s hs := (ha.ends s hs).mono (fun _ _ h => h.1) fun _ _ h => h

/-- Goes on after an action that keeps `I`, where a failure need only keep it, too. -/
theorem Yields.ends_bind {P : α → Prop} {a : ExceptT ε (StateM σ) α}
    {f : α → ExceptT ε (StateM σ) β} {Q : β → σ → Prop} (ha : Yields I P a) (hs : I s)
    (hf : ∀ v s', I s' → P v → Ends (f v) s' Q E) (hE : ∀ e s', I s' → E e s') :
    Ends (a >>= f) s Q E :=
  Folio.ends_bind.2 <| (ha.ends s hs).mono (fun v s' h => hf v s' h.1 h.2) hE

theorem Keeps.ends_bind {a : ExceptT ε (StateM σ) α} {f : α → ExceptT ε (StateM σ) β}
    {Q : β → σ → Prop} (ha : Keeps I a) (hs : I s) (hf : ∀ v s', I s' → Ends (f v) s' Q E)
    (hE : ∀ e s', I s' → E e s') : Ends (a >>= f) s Q E :=
  Folio.ends_bind.2 <| (ha.ends s hs).mono hf hE

theorem Keeps.and {J : σ → Prop} {a : ExceptT ε (StateM σ) α} (ha : Keeps I a)
    (ha' : Keeps J a) : Keeps (fun s => I s ∧ J s) a :=
  ⟨fun s hs => (ha.ends s hs.1).and (ha'.ends s hs.2)⟩

theorem yields_get : Yields I I (get : ExceptT ε (StateM σ) σ) :=
  ⟨fun _ hs => ends_get.2 ⟨hs, hs⟩⟩

theorem keeps_forM {f : α → ExceptT ε (StateM σ) PUnit} {xs : List α}
    (hf : ∀ x ∈ xs, Keeps I (f x)) : Keeps I (xs.forM f) where
  ends s hs := by
    refine ends_forM (fun _ => I) hs fun done x rest s' hxs hs' => (hf x ?_).ends s' hs'
    simp [hxs]

theorem keeps_filterMapM {f : α → ExceptT ε (StateM σ) (Option β)} {xs : List α}
    (hf : ∀ x ∈ xs, Keeps I (f x)) : Keeps I (xs.filterMapM f) where
  ends s hs := by
    refine ends_filterMapM (fun _ _ => I) hs fun done x rest _ s' hxs hs' => (hf x ?_).ends s' hs'
    simp [hxs]

theorem keeps_forIn {f : α → ExceptT ε (StateM σ) PUnit} {xs : List α} (hf : ∀ x, Keeps I (f x)) :
    Keeps I (forIn xs PUnit.unit fun x _ => do f x; pure (ForInStep.yield PUnit.unit)) where
  ends _ hs := ends_forIn I hs fun x s' hs' => (hf x).ends s' hs'

end

/-! ## Actions of a session -/

namespace Action

variable {α : Type} {s : Session} {E : Failure → Session → Prop}

@[simp] theorem ends_files {Q : FileTree → Session → Prop} :
    Ends files s Q E ↔ Q s.files s := ends_iff

@[simp] theorem ends_setFiles {t : FileTree} {Q : Unit → Session → Prop} :
    Ends (setFiles t) s Q E ↔ Q () { s with files := t } := ends_iff

@[simp] theorem ends_debug {topic message : String} {Q : Unit → Session → Prop} :
    Ends (debug topic message) s Q E ↔
      Q () { s with log := s.log ++ [⟨.debug, topic, message⟩] } := ends_iff

@[simp] theorem ends_info {topic message : String} {Q : Unit → Session → Prop} :
    Ends (info topic message) s Q E ↔
      Q () { s with log := s.log ++ [⟨.info, topic, message⟩] } := ends_iff

@[simp] theorem ends_warn {topic message : String} {Q : Unit → Session → Prop} :
    Ends (warn topic message) s Q E ↔
      Q () { s with log := s.log ++ [⟨.warning, topic, message⟩] } := ends_iff

@[simp] theorem ends_orRaise {r : Except Cause α} {Q : α → Session → Prop} :
    Ends (orRaise r) s Q E ↔
      match r with
      | .ok v => Q v s
      | .error cause => E (.raised cause) s := by
  cases r <;> exact ends_iff

@[simp] theorem ends_attempt {a : Action α} {Q : Except Failure α → Session → Prop} :
    Ends (attempt a) s Q E ↔ Ends a s (fun v => Q (.ok v)) fun e => Q (.error e) := by
  have hrun : (attempt a s : Except Failure (Except Failure α) × Session) =
      (.ok (a s : Except Failure α × Session).1, (a s : Except Failure α × Session).2) := rfl
  rw [ends_iff, ends_iff, hrun]
  rcases (a s : Except Failure α × Session) with ⟨_ | v, s'⟩ <;> rfl

end Action

end Folio
