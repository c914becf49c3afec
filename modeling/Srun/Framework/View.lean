import Srun.Framework.Machine

/-!
# States that can do the same

Two states are alike when they have the same runs. The rule for it is that of a bisimulation
(`alike_of_bisim`): what one of two related states can do the other can do too, and they are
related again.

Where the relation says of a part of the states that they agree on what is going to be read
again, it is given by a view that blots out the rest. If steps respect the view, so that a
step from the blotted state shows the same as the step from the state itself (`Respected`),
then steps from states with the same view show the same (`Respected.map_eq`).
-/

namespace Machine

variable {State Event : Type}

/-- The two states have the same runs. -/
def Alike (step : State → Event → Option State) (s t : State) : Prop :=
  ∀ evs, (exec step s evs).isSome = (exec step t evs).isSome

/-- **Bisimulation.** Related states are alike, if what one of them can do the other can do
too, and they are related again. -/
theorem alike_of_bisim {step : State → Event → Option State} {R : State → State → Prop}
    (hsymm : ∀ {s t}, R s t → R t s)
    (hstep : ∀ {s t s' ev}, R s t → step s ev = some s' → ∃ t', step t ev = some t' ∧ R s' t')
    {s t : State} (h : R s t) : Alike step s t := by
  intro evs
  induction evs generalizing s t with
  | nil => rfl
  | cons ev evs ih =>
    rw [exec_cons, exec_cons]
    cases hs : step s ev with
    | some s' =>
      obtain ⟨t', ht, h'⟩ := hstep h hs
      rw [ht]
      exact ih h'
    | none =>
      -- a step of the other state would be matched
      cases ht : step t ev with
      | none => rfl
      | some t' =>
        obtain ⟨s', hs', -⟩ := hstep (hsymm h) ht
        cases hs.symm.trans hs'

/-- What `view` blots out is not read by a step, and does not come back by one. -/
def Respected (step : State → Event → Option State) (view : State → State) : Prop :=
  ∀ s ev, (step s ev).map view = (step (view s) ev).map view

variable {step : State → Event → Option State} {view : State → State} {s t : State}

/-- Steps from states with the same view show the same. -/
theorem Respected.map_eq (h : Respected step view) (hview : view s = view t) (ev : Event) :
    (step s ev).map view = (step t ev).map view :=
  calc (step s ev).map view
    _ = (step (view s) ev).map view := h s ev
    _ = (step (view t) ev).map view := by rw [hview]
    _ = (step t ev).map view := (h t ev).symm

end Machine
