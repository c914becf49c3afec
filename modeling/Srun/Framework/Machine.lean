import Mathlib

/-!
# Partial step machines

A machine is a function `step : State → Event → Option State`: the event names
what happens and carries every choice the environment makes, so the step is
determined by it, and `none` says that the event is not possible in the state.
A run is a list of events (`exec`).

Three ways of talking about a run are used throughout.

* `Reachable step s₀ s`: some list of events leads from `s₀` to `s`.
* `StepsMeet step C s₀ evs`: every step of the run meets `C`, a condition on the
  state before the step and on the event.
* `Always step P s₀ evs`: `P` holds in every state the run visits.

The rules are the usual ones: an invariant is proved on one step and lifted to
runs (`exec_invariant`, `always_of_stepsMeet`), a condition on the steps decides
a property of the visited states (`always_iff_stepsMeet`), and a run whose steps
do not all meet the condition ends in the damage the first bad step did, when
that damage is stable (`meet_or_damaged`).
-/

namespace Machine

variable {State Event : Type}

/-- Run a list of events from `s`; `none` as soon as one of them is not possible. -/
def exec (step : State → Event → Option State) : State → List Event → Option State
  | s, [] => some s
  | s, ev :: evs => (step s ev).bind fun s' => exec step s' evs

/-- `s` is reached from `s₀` by some list of events. -/
def Reachable (step : State → Event → Option State) (s₀ s : State) : Prop :=
  ∃ evs, exec step s₀ evs = some s

/-- Every step of the run meets `C`, read on the state before the step. -/
def StepsMeet (step : State → Event → Option State) (C : State → Event → Prop) :
    State → List Event → Prop
  | _, [] => True
  | s, ev :: evs => C s ev ∧ ∀ s', step s ev = some s' → StepsMeet step C s' evs

/-- `P` holds in every state that the run visits, the first one included. -/
def Always (step : State → Event → Option State) (P : State → Prop) :
    State → List Event → Prop
  | s, [] => P s
  | s, ev :: evs => P s ∧ ∀ s', step s ev = some s' → Always step P s' evs

variable {step : State → Event → Option State} {s s' : State} {ev : Event}
  {evs evs' : List Event}

@[simp] theorem exec_nil (s : State) : exec step s [] = some s := rfl

theorem exec_cons (s : State) (ev : Event) (evs : List Event) :
    exec step s (ev :: evs) = (step s ev).bind fun s' => exec step s' evs := rfl

/-- A run that starts with `ev` is a step followed by a run. -/
theorem exec_cons_eq_some {t : State} :
    exec step s (ev :: evs) = some t ↔
      ∃ s', step s ev = some s' ∧ exec step s' evs = some t := by
  rw [exec_cons, Option.bind_eq_some_iff]

theorem exec_append (s : State) (evs evs' : List Event) :
    exec step s (evs ++ evs') = (exec step s evs).bind fun s' => exec step s' evs' := by
  induction evs generalizing s with
  | nil => rfl
  | cons ev evs ih =>
    rw [List.cons_append, exec_cons, exec_cons, Option.bind_assoc]
    exact congrArg _ (funext fun s' => ih s')

/-- Extending a run by one event at its end. -/
theorem exec_concat_eq_some {t : State} :
    exec step s (evs ++ [ev]) = some t ↔
      ∃ s', exec step s evs = some s' ∧ step s' ev = some t := by
  rw [exec_append, Option.bind_eq_some_iff]
  simp [exec_cons_eq_some]

/-- A run that has been evaluated. -/
theorem exec_of_any {P : State → Bool} (h : (exec step s evs).any P = true) :
    ∃ t, exec step s evs = some t ∧ P t = true :=
  (Option.any_eq_true _ _).mp h

theorem Reachable.refl (s : State) : Reachable step s s := ⟨[], rfl⟩

theorem Reachable.concat {s₀ : State} (h : Reachable step s₀ s)
    (hstep : step s ev = some s') : Reachable step s₀ s' := by
  obtain ⟨evs, hevs⟩ := h
  exact ⟨evs ++ [ev], exec_concat_eq_some.mpr ⟨s, hevs, hstep⟩⟩

theorem Reachable.trans {s₀ t : State} (h : Reachable step s₀ s) (h' : Reachable step s t) :
    Reachable step s₀ t := by
  obtain ⟨evs, hevs⟩ := h
  obtain ⟨evs', hevs'⟩ := h'
  refine ⟨evs ++ evs', ?_⟩
  rw [exec_append, hevs]
  exact hevs'

/-! ### Invariants -/

/-- **The invariant rule.** What every step preserves, every run preserves. -/
theorem exec_invariant {I : State → Prop}
    (hstep : ∀ s ev s', I s → step s ev = some s' → I s') {s t : State}
    (hs : I s) (hexec : exec step s evs = some t) : I t := by
  induction evs generalizing s with
  | nil =>
    obtain rfl : s = t := Option.some.inj hexec
    exact hs
  | cons ev evs ih =>
    obtain ⟨s', h1, h2⟩ := exec_cons_eq_some.mp hexec
    exact ih (hstep s ev s' hs h1) h2

theorem Reachable.invariant {I : State → Prop} {s₀ : State}
    (hstep : ∀ s ev s', I s → step s ev = some s' → I s')
    (hinit : I s₀) (h : Reachable step s₀ s) : I s := by
  obtain ⟨evs, hevs⟩ := h
  exact exec_invariant hstep hinit hevs

/-- **The simulation rule.** If `step₂` can follow each step of `step` where `f` leads, or
`f` does not see the step, then it can follow whole runs. -/
theorem Reachable.simulate {State₂ Event₂ : Type} {step₂ : State₂ → Event₂ → Option State₂}
    {I : State → Prop} {f : State → State₂}
    (hstep : ∀ s ev s', I s → step s ev = some s' → I s')
    (hsim : ∀ s ev s', I s → step s ev = some s' →
      f s' = f s ∨ ∃ ev₂, step₂ (f s) ev₂ = some (f s'))
    {s₀ : State} (hinit : I s₀) (h : Reachable step s₀ s) : Reachable step₂ (f s₀) (f s) := by
  have hboth : I s ∧ Reachable step₂ (f s₀) (f s) := by
    refine h.invariant (I := fun t => I t ∧ Reachable step₂ (f s₀) (f t)) ?_ ⟨hinit, .refl _⟩
    rintro t ev t' ⟨hI, hreach⟩ h1
    refine ⟨hstep t ev t' hI h1, ?_⟩
    rcases hsim t ev t' hI h1 with hsame | ⟨ev₂, h2⟩
    · rw [hsame]
      exact hreach
    · exact hreach.concat h2
  exact hboth.2

/-! ### Conditions on steps -/

/-- On a given run the condition can be evaluated. -/
instance StepsMeet.instDecidable {C : State → Event → Prop} [∀ s ev, Decidable (C s ev)] :
    ∀ s evs, Decidable (StepsMeet step C s evs)
  | _, [] => isTrue trivial
  | s, ev :: evs =>
    match hstep : step s ev with
    | none => decidable_of_iff (C s ev) ⟨fun h => ⟨h, by simp [hstep]⟩, And.left⟩
    | some s' =>
      have := instDecidable (C := C) s' evs
      decidable_of_iff (C s ev ∧ StepsMeet step C s' evs)
        ⟨fun h => ⟨h.1, by simpa [hstep] using h.2⟩, fun h => ⟨h.1, h.2 s' hstep⟩⟩

/-- What every step meets. -/
theorem StepsMeet.of_forall {C : State → Event → Prop} (h : ∀ s ev, C s ev) :
    StepsMeet step C s evs := by
  induction evs generalizing s with
  | nil => trivial
  | cons ev evs ih => exact ⟨h s ev, fun _ _ => ih⟩

/-- A condition on the event alone is one on the list of events. -/
theorem stepsMeet_iff_forall {C : Event → Prop} (hexec : exec step s evs = some s') :
    StepsMeet step (fun _ ev => C ev) s evs ↔ ∀ ev ∈ evs, C ev := by
  induction evs generalizing s with
  | nil => simp [StepsMeet]
  | cons ev evs ih =>
    obtain ⟨s₁, h1, h2⟩ := exec_cons_eq_some.mp hexec
    rw [List.forall_mem_cons]
    refine and_congr_right fun _ => ⟨fun h => (ih h2).mp (h s₁ h1), fun h s₂ hs₂ => ?_⟩
    -- the machine is deterministic
    obtain rfl : s₁ = s₂ := Option.some.inj (h1.symm.trans hs₂)
    exact (ih h2).mpr h

theorem StepsMeet.and {C D : State → Event → Prop} :
    StepsMeet step (fun s ev => C s ev ∧ D s ev) s evs ↔
      StepsMeet step C s evs ∧ StepsMeet step D s evs := by
  induction evs generalizing s with
  | nil => simp [StepsMeet]
  | cons ev evs ih =>
    simp only [StepsMeet, ih]
    exact ⟨fun ⟨⟨hc, hd⟩, h⟩ => ⟨⟨hc, fun s' hs' => (h s' hs').1⟩, hd, fun s' hs' => (h s' hs').2⟩,
      fun ⟨⟨hc, h1⟩, hd, h2⟩ => ⟨⟨hc, hd⟩, fun s' hs' => ⟨h1 s' hs', h2 s' hs'⟩⟩⟩

/-- Under an invariant one condition on the steps gives another. -/
theorem StepsMeet.imp {I : State → Prop} {C D : State → Event → Prop}
    (hinv : ∀ s ev s', I s → step s ev = some s' → I s')
    (himp : ∀ s ev, I s → C s ev → D s ev) (hs : I s) (h : StepsMeet step C s evs) :
    StepsMeet step D s evs := by
  induction evs generalizing s with
  | nil => trivial
  | cons ev evs ih =>
    exact ⟨himp s ev hs h.1, fun s' h1 => ih (hinv s ev s' hs h1) (h.2 s' h1)⟩

/-- **The conditional invariant rule.** What every step that meets `C` preserves holds
throughout the runs whose steps all meet `C`. -/
theorem always_of_stepsMeet {I P : State → Prop} {C : State → Event → Prop}
    (hstep : ∀ s ev s', I s → C s ev → step s ev = some s' → I s')
    (himp : ∀ s, I s → P s) {s : State} (hs : I s) (hmeet : StepsMeet step C s evs) :
    Always step P s evs := by
  -- the induction carries `I`, of which `P` is what is visible
  induction evs generalizing s with
  | nil => exact himp s hs
  | cons ev evs ih =>
    exact ⟨himp s hs, fun s' h1 => ih (hstep s ev s' hs hmeet.1 h1) (hmeet.2 s' h1)⟩

/-- **A condition on the steps decides a property of the states.** Let all steps of a
run meet `W`. If under an invariant such a step from a `P`-state leads to a `P`-state
exactly when it meets `C`, then the run, from a `P`-state, visits `P`-states only
exactly when all its steps meet `C`. -/
theorem always_iff_stepsMeet {I P : State → Prop} {W C : State → Event → Prop}
    (hinv : ∀ s ev s', I s → W s ev → step s ev = some s' → I s')
    (hiff : ∀ s ev s', I s → P s → W s ev → step s ev = some s' → (P s' ↔ C s ev))
    {s t : State} (hI : I s) (hP : P s) (hW : StepsMeet step W s evs)
    (hexec : exec step s evs = some t) :
    Always step P s evs ↔ StepsMeet step C s evs := by
  induction evs generalizing s with
  | nil => exact ⟨fun _ => trivial, fun _ => hP⟩
  | cons ev evs ih =>
    obtain ⟨s', h1, h2⟩ := exec_cons_eq_some.mp hexec
    -- the event decides the next state
    have hdet : ∀ s'', step s ev = some s'' → s'' = s' := fun s'' h =>
      Option.some.inj (h.symm.trans h1)
    have hP' := hiff s ev s' hI hP hW.1 h1
    have ih' := fun hp => ih (hinv s ev s' hI hW.1 h1) hp (hW.2 s' h1) h2
    constructor
    · rintro ⟨-, h⟩
      have hrest := h s' h1
      -- a run that visits `P`-states only starts in one
      have hp : P s' := by cases evs with
        | nil => exact hrest
        | cons _ _ => exact hrest.1
      refine ⟨hP'.mp hp, fun s'' hs'' => ?_⟩
      rw [hdet s'' hs'']
      exact (ih' hp).mp hrest
    · rintro ⟨hC, h⟩
      refine ⟨hP, fun s'' hs'' => ?_⟩
      rw [hdet s'' hs'']
      exact (ih' (hP'.mpr hC)).mpr (h s' h1)

/-- The last state of a run is one that it visits. -/
theorem Always.last {P : State → Prop} {t : State} (h : Always step P s evs)
    (hexec : exec step s evs = some t) : P t := by
  induction evs generalizing s with
  | nil =>
    obtain rfl : s = t := Option.some.inj hexec
    exact h
  | cons ev evs ih =>
    obtain ⟨s', h1, h2⟩ := exec_cons_eq_some.mp hexec
    exact ih (h.2 s' h1) h2

/-- **A condition that a property needs.** If no step into a `P`-state misses `C`, a run
that visits `P`-states only meets `C` throughout. -/
theorem stepsMeet_of_always {P : State → Prop} {C : State → Event → Prop}
    (hneed : ∀ s ev s', step s ev = some s' → P s' → C s ev) {s t : State}
    (hexec : exec step s evs = some t) (h : Always step P s evs) : StepsMeet step C s evs := by
  induction evs generalizing s with
  | nil => trivial
  | cons ev evs ih =>
    obtain ⟨s', h1, h2⟩ := exec_cons_eq_some.mp hexec
    have hrest := h.2 s' h1
    have hP : P s' := by cases evs with
      | nil => exact hrest
      | cons _ _ => exact hrest.1
    refine ⟨hneed s ev s' h1 hP, fun s'' hs'' => ?_⟩
    obtain rfl : s'' = s' := Option.some.inj (hs''.symm.trans h1)
    exact ih h2 hrest

/-! ### Runs up to a state

What happens between a state and the first `Q`-state after it. -/

/-- The run leads from `s` to a `Q`-state, and to none before its end. -/
def LeadsTo (step : State → Event → Option State) (Q : State → Prop) : State → List Event → Prop
  | s, [] => Q s
  | s, ev :: evs => ¬ Q s ∧ ∃ s', step s ev = some s' ∧ LeadsTo step Q s' evs

instance LeadsTo.instDecidable {Q : State → Prop} [DecidablePred Q] :
    ∀ s evs, Decidable (LeadsTo step Q s evs)
  | s, [] => inferInstanceAs (Decidable (Q s))
  | s, ev :: evs =>
    match hstep : step s ev with
    | none => .isFalse fun h => (by
      obtain ⟨-, s', h1, -⟩ := h
      cases hstep.symm.trans h1)
    | some s' =>
      have := instDecidable (Q := Q) s' evs
      decidable_of_iff (¬ Q s ∧ LeadsTo step Q s' evs)
        ⟨fun h => ⟨h.1, s', hstep, h.2⟩, fun ⟨hQ, s'', h1, h2⟩ =>
          ⟨hQ, Option.some.inj (hstep.symm.trans h1) ▸ h2⟩⟩

/-- **What must happen first.** If no `P`-state is a `Q`-state and every step from a
`P`-state to another state than a `P`-state is the event `e`, then `e` happens on the way to
the first `Q`-state. -/
theorem LeadsTo.mem {P Q : State → Prop} {e : Event} (hQ : ∀ s, P s → ¬ Q s)
    (hstep : ∀ s ev s', P s → step s ev = some s' → ev = e ∨ P s') (hs : P s)
    (h : LeadsTo step Q s evs) : e ∈ evs := by
  induction evs generalizing s with
  | nil => exact absurd h (hQ s hs)
  -- either `e` is this event, or the run is still among the `P`-states
  | cons ev evs ih =>
    obtain ⟨-, s', h1, h2⟩ := h
    rcases hstep s ev s' hs h1 with rfl | hs'
    · exact List.mem_cons_self
    · exact List.mem_cons_of_mem _ (ih hs' h2)

/-- **What cannot happen first.** If every step from a `P`-state is another event than
those of `B` and leads to a `P`-state or to a `Q`-state, then none of `B` happens on the way
to the first `Q`-state. -/
theorem LeadsTo.not_mem {P Q : State → Prop} {B : Event → Prop}
    (hstep : ∀ s ev s', P s → step s ev = some s' → ¬ B ev ∧ (P s' ∨ Q s')) (hs : P s)
    (h : LeadsTo step Q s evs) : ∀ ev ∈ evs, ¬ B ev := by
  induction evs generalizing s with
  | nil => exact List.forall_mem_nil _
  | cons ev evs ih =>
    obtain ⟨-, s', h1, h2⟩ := h
    obtain ⟨hB, hs'⟩ := hstep s ev s' hs h1
    refine List.forall_mem_cons.mpr ⟨hB, ?_⟩
    -- at the first `Q`-state the run is over
    rcases hs' with hP | hQ
    · exact ih hP h2
    · cases evs with
      | nil => exact List.forall_mem_nil _
      | cons _ _ => exact absurd hQ h2.1

/-- **First bad step.** If a step that meets `C` keeps the invariant `G`, a step
that does not turns it into the damage `B`, and the damage is stable, then a run
from a `G`-state either meets `C` throughout and ends in `G`, or does not and ends
in `B`. -/
theorem meet_or_damaged {G B : State → Prop} {C : State → Event → Prop}
    (hgood : ∀ s ev s', G s → C s ev → step s ev = some s' → G s')
    (hbad : ∀ s ev s', G s → ¬ C s ev → step s ev = some s' → B s')
    (hstable : ∀ s ev s', B s → step s ev = some s' → B s')
    {s t : State} (hs : G s) (hexec : exec step s evs = some t) :
    (StepsMeet step C s evs ∧ G t) ∨ (¬ StepsMeet step C s evs ∧ B t) := by
  induction evs generalizing s with
  | nil =>
    obtain rfl : s = t := Option.some.inj hexec
    exact Or.inl ⟨trivial, hs⟩
  | cons ev evs ih =>
    obtain ⟨s', h1, h2⟩ := exec_cons_eq_some.mp hexec
    -- the step decides on which side the rest of the run is
    by_cases hC : C s ev
    · rcases ih (hgood s ev s' hs hC h1) h2 with ⟨hm, hG⟩ | ⟨hm, hB⟩
      · refine Or.inl ⟨⟨hC, fun s'' hs'' => ?_⟩, hG⟩
        rwa [← Option.some.inj (h1.symm.trans hs'')]
      · -- damage done later shows that a later step misses `C`
        exact Or.inr ⟨fun h => hm (h.2 s' h1), hB⟩
    · exact Or.inr ⟨fun h => hC h.1,
        exec_invariant hstable (hbad s ev s' hs hC h1) h2⟩

end Machine
