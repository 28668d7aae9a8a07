import Folio.Proofs.Session.States

/-!
# How building can fail

Whatever goes wrong while output is made is raised where it happens, or names the output
that it prevents.  A complaint about the declaration of spaces or about the use of a
command comes from elsewhere.

`BuildFaults a` says this of an action or of a step.  There is one rule for each way to
put actions together; an attempt hands its failures on to what follows it.
-/

namespace Folio

/-- The failures that making output gives rise to. -/
inductive Failure.OfBuilding : Failure → Prop
  | raised (cause : Cause) : OfBuilding (.raised cause)
  | build (message : String) (cause : Cause) : OfBuilding (.build message cause)

/-- Wherever the action starts, it gives a value or fails as building does. -/
structure BuildFaults {σ α : Type} (a : ExceptT Failure (StateM σ) α) : Prop where
  ends : ∀ s, Ends a s (fun _ _ => True) fun e _ => e.OfBuilding

section

variable {σ α β : Type}

/-! ## Rules -/

theorem BuildFaults.bind {a : ExceptT Failure (StateM σ) α}
    {f : α → ExceptT Failure (StateM σ) β} (ha : BuildFaults a) (hf : ∀ v, BuildFaults (f v)) :
    BuildFaults (a >>= f) where
  ends s := ends_bind.2 <| (ha.ends s).mono (fun v s' _ => (hf v).ends s') fun _ _ h => h

end

namespace Action

variable {α β : Type}

end Action

open Folio.Action

/-! ## Reading templates, pages and states -/

end Folio
