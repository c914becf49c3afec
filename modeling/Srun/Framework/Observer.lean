import Srun.Framework.Machine

/-!
# Observers of a machine

A statement about runs often speaks of something that the machine does not keep: what it
has said so far, the state in which something happened. An observer is a component that
sees every step and that the machine never reads. `observe step note` is the machine
`step` with an observer beside it, which `note` updates from the step just taken.

Since the observer is never read, it changes nothing: a run of the observed machine is a
run of the machine (`exec_of_observe`) and every run of the machine can be observed
(`exec_observe`), so that conditions on the steps mean the same on both
(`stepsMeet_observe`).
-/

namespace Machine

variable {State Event Ghost : Type}

/-- A state and what its observer has kept. -/
structure Observed (State Ghost : Type) where
  state : State
  seen : Ghost

/-- The machine with an observer. `note s ev s' g` is what the observer keeps after the
step from `s` to `s'`, when it has kept `g` before. -/
def observe (step : State → Event → Option State) (note : State → Event → State → Ghost → Ghost)
    (o : Observed State Ghost) (ev : Event) : Option (Observed State Ghost) :=
  (step o.state ev).map fun s' => ⟨s', note o.state ev s' o.seen⟩

variable {step : State → Event → Option State} {note : State → Event → State → Ghost → Ghost}
  {o o' : Observed State Ghost} {ev : Event} {evs : List Event}

/-- A step of the observed machine is a step of the machine. -/
theorem observe_eq_some :
    observe step note o ev = some o' ↔
      step o.state ev = some o'.state ∧ o'.seen = note o.state ev o'.state o.seen := by
  unfold observe
  rw [Option.map_eq_some_iff]
  constructor
  · rintro ⟨s', hstep, rfl⟩
    exact ⟨hstep, rfl⟩
  · rintro ⟨hstep, hseen⟩
    exact ⟨o'.state, hstep, by rw [← hseen]⟩

theorem step_of_observe (h : observe step note o ev = some o') :
    step o.state ev = some o'.state :=
  (observe_eq_some.mp h).1

theorem exec_of_observe (h : exec (observe step note) o evs = some o') :
    exec step o.state evs = some o'.state := by
  induction evs generalizing o with
  | nil =>
    obtain rfl : o = o' := Option.some.inj h
    rfl
  | cons ev evs ih =>
    obtain ⟨o₁, h1, h2⟩ := exec_cons_eq_some.mp h
    exact exec_cons_eq_some.mpr ⟨o₁.state, step_of_observe h1, ih h2⟩

/-- Every run can be observed. -/
theorem exec_observe {s s' : State} (g : Ghost) (h : exec step s evs = some s') :
    ∃ g', exec (observe step note) ⟨s, g⟩ evs = some ⟨s', g'⟩ := by
  induction evs generalizing s g with
  | nil =>
    obtain rfl : s = s' := Option.some.inj h
    exact ⟨g, rfl⟩
  | cons ev evs ih =>
    obtain ⟨s₁, h1, h2⟩ := exec_cons_eq_some.mp h
    obtain ⟨g', hg'⟩ := ih (note s ev s₁ g) h2
    refine ⟨g', exec_cons_eq_some.mpr ⟨⟨s₁, note s ev s₁ g⟩, ?_, hg'⟩⟩
    exact observe_eq_some.mpr ⟨h1, rfl⟩

/-- A condition that does not look at the observer is one on the run of the machine. -/
theorem stepsMeet_observe {C : State → Event → Prop} :
    StepsMeet (observe step note) (fun o ev => C o.state ev) o evs ↔
      StepsMeet step C o.state evs := by
  induction evs generalizing o with
  | nil => exact Iff.rfl
  | cons ev evs ih =>
    -- a step of the machine is observed as one, and the other way round
    refine and_congr_right fun _ => ⟨fun h s' hs' => ?_, fun h o' ho' => ?_⟩
    · exact ih.mp (h ⟨s', note o.state ev s' o.seen⟩ (observe_eq_some.mpr ⟨hs', rfl⟩))
    · exact ih.mpr (h o'.state (step_of_observe ho'))

/-! ### What is seen of a run -/

section

variable {α : Type} {see : State → Event → Option α} {Q : State → Prop} {s : State}

/-- What is seen of the steps of a run, in their order. -/
def trace (step : State → Event → Option State) (see : State → Event → Option α) :
    State → List Event → List α
  | _, [] => []
  | s, ev :: evs =>
    (see s ev).toList ++ (step s ev).elim [] fun s' => trace step see s' evs

/-- **The trace rule.** Let `R` be between a state, what is seen on the way to the first
`Q`-state, and that state. If it holds of a `Q`-state, with nothing to be seen, and goes from
the state after a step to the state before it, then it holds of all runs that lead to a
`Q`-state. -/
theorem LeadsTo.trace {R : State → List α → State → Prop} (hend : ∀ s, Q s → R s [] s)
    (hstep : ∀ s ev s' seen t, ¬ Q s → step s ev = some s' → R s' seen t →
      R s ((see s ev).toList ++ seen) t)
    (h : LeadsTo step Q s evs) :
    ∃ t, exec step s evs = some t ∧ R s (trace step see s evs) t := by
  induction evs generalizing s with
  | nil => exact ⟨s, rfl, hend s h⟩
  | cons ev evs ih =>
    obtain ⟨hQ, s', h1, h2⟩ := h
    obtain ⟨t, hrun, hR⟩ := ih h2
    refine ⟨t, exec_cons_eq_some.mpr ⟨s', h1, hrun⟩, ?_⟩
    rw [Machine.trace, h1]
    exact hstep s ev s' _ t hQ h1 hR

end

end Machine
