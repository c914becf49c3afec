import Srun.Framework.Machine

/-!
# Potentials

How long a run can be. A step may cost something, which is what the environment puts into
it, and `total` adds the costs of a run up. A potential is a number for each state. If a step
lowers it by one at least, but for its cost, the run is no longer than the potential at its
start and its costs (`length_le_of_potential`).
-/

namespace Machine

variable {State Event : Type} {step : State → Event → Option State} {s s' t : State} {ev : Event}
  {evs : List Event} {c d : State → Event → ℕ}

/-- The costs of a run. -/
def total (step : State → Event → Option State) (c : State → Event → ℕ) : State → List Event → ℕ
  | _, [] => 0
  | s, ev :: evs => c s ev + (step s ev).elim 0 fun s' => total step c s' evs

theorem total_cons (h : step s ev = some s') :
    total step c s (ev :: evs) = c s ev + total step c s' evs := by
  rw [total, h, Option.elim_some]

theorem total_mul (k : ℕ) :
    total step (fun s ev => k * c s ev) s evs = k * total step c s evs := by
  induction evs generalizing s with
  | nil => rfl
  | cons ev evs ih =>
    rw [total, total, Nat.mul_add]
    cases step s ev with
    | none => rfl
    | some s' => exact congrArg _ ih

theorem total_add :
    total step (fun s ev => c s ev + d s ev) s evs = total step c s evs + total step d s evs := by
  induction evs generalizing s with
  | nil => rfl
  | cons ev evs ih =>
    rw [total, total, total, Nat.add_add_add_comm]
    cases step s ev with
    | none => rfl
    | some s' => exact congrArg _ ih

/-- What costs nothing under an invariant costs nothing in the whole run. -/
theorem total_eq_zero (I : State → Prop)
    (hinv : ∀ s ev s', I s → step s ev = some s' → I s')
    (hfree : ∀ s ev, I s → c s ev = 0) (hs : I s) : total step c s evs = 0 := by
  induction evs generalizing s with
  | nil => rfl
  | cons ev evs ih =>
    rw [total, hfree s ev hs, Nat.zero_add]
    cases hstep : step s ev with
    | none => rfl
    | some s' => exact ih (hinv s ev s' hs hstep)

/-- **The potential rule.** Under an invariant, a run whose steps all meet `C` is no longer
than its costs and what it takes off the potential. -/
theorem length_le_of_potential (I : State → Prop) (C : State → Event → Prop) (rank : State → ℕ)
    (c : State → Event → ℕ) (hinv : ∀ s ev s', I s → C s ev → step s ev = some s' → I s')
    (hrank : ∀ s ev s', I s → C s ev → step s ev = some s' → rank s' + 1 ≤ rank s + c s ev)
    (hs : I s) (hmeet : StepsMeet step C s evs) (hexec : exec step s evs = some t) :
    evs.length + rank t ≤ rank s + total step c s evs := by
  induction evs generalizing s with
  | nil =>
    obtain rfl : s = t := Option.some.inj hexec
    exact Nat.le_of_eq (Nat.zero_add _)
  | cons ev evs ih =>
    obtain ⟨s', h1, h2⟩ := exec_cons_eq_some.mp hexec
    have hrest := ih (hinv s ev s' hs hmeet.1 h1) (hmeet.2 s' h1) h2
    have hfirst := hrank s ev s' hs hmeet.1 h1
    rw [total_cons h1, List.length_cons]
    omega

/-- The potential rule where nothing costs anything. -/
theorem length_le_of_rank (I : State → Prop) (C : State → Event → Prop) (rank : State → ℕ)
    (hinv : ∀ s ev s', I s → C s ev → step s ev = some s' → I s')
    (hrank : ∀ s ev s', I s → C s ev → step s ev = some s' → rank s' + 1 ≤ rank s)
    (hs : I s) (hmeet : StepsMeet step C s evs) (hexec : exec step s evs = some t) :
    evs.length + rank t ≤ rank s := by
  have h := length_le_of_potential I C rank (fun _ _ => 0) hinv hrank hs hmeet hexec
  rwa [total_eq_zero (fun _ => True) (fun _ _ _ _ _ => trivial) (fun _ _ _ => rfl) trivial,
    Nat.add_zero] at h

end Machine
