import Srun.Framework.Machine

/-!
# Variables that hold descriptors

A program keeps descriptors in variables, and has the kernel watch some of them. The kernel
knows descriptors only: which are open, and which are watched. What can go wrong is that a
variable gets a new descriptor while the old one is still watched. Nothing refers to the old
one any more, so that nobody can ever close it or stop watching it, and no event on it can be
told from one on a descriptor that never was.

`Holds` is what every program keeps (`Holds.step`): its variables hold open descriptors, and
no two the same. `Owned` says that every watched descriptor is in a variable; operations that
are `Careful` keep it (`owned_step`). An operation that is not leaves an `Orphan`
(`orphan_of_take`), and an orphan stays one (`Orphan.step`).
-/

/-- Variables `ι`, each with a descriptor or without one, and the two sets of the kernel. -/
structure Handles (ι δ : Type) where
  var : ι → Option δ
  opened : Finset δ
  interest : Finset δ

namespace Handles

/-- The operations on a variable. -/
inductive Op (ι δ : Type)
  /-- The variable gets the new descriptor `d`. -/
  | take (i : ι) (d : δ)
  | close (i : ι)
  | watch (i : ι)
  | unwatch (i : ι)

variable {ι δ : Type} [DecidableEq ι] [DecidableEq δ]

/-- Without the descriptor of a variable that has one. -/
def without (s : Finset δ) : Option δ → Finset δ
  | none => s
  | some d => s.erase d

/-- One operation: a new descriptor was not open, and what is to be watched is open and not
watched yet. -/
def step (h : Handles ι δ) : Op ι δ → Option (Handles ι δ)
  | .take i d =>
    if d ∈ h.opened then none
    else some { h with var := Function.update h.var i (some d), opened := insert d h.opened }
  | .close i =>
    some { h with var := Function.update h.var i none, opened := without h.opened (h.var i) }
  | .watch i =>
    (h.var i).bind fun d =>
      if d ∈ h.opened ∧ d ∉ h.interest then some { h with interest := insert d h.interest }
      else none
  | .unwatch i => some { h with interest := without h.interest (h.var i) }

/-- A descriptor that is not open can be taken. -/
theorem step_take {h : Handles ι δ} {d : δ} (hnew : d ∉ h.opened) (i : ι) :
    h.step (.take i d) =
      some { h with var := Function.update h.var i (some d), opened := insert d h.opened } :=
  if_neg hnew

/-- An open descriptor that is not watched can be. -/
theorem step_watch {h : Handles ι δ} {i : ι} {d : δ} (hvar : h.var i = some d)
    (hopen : d ∈ h.opened) (hnew : d ∉ h.interest) :
    h.step (.watch i) = some { h with interest := insert d h.interest } := by
  rw [step, hvar, Option.bind_some, if_pos ⟨hopen, hnew⟩]

/-- The variables after an operation. -/
def varAfter (var : ι → Option δ) : Op ι δ → ι → Option δ
  | .take i d => Function.update var i (some d)
  | .close i => Function.update var i none
  | .watch _ | .unwatch _ => var

theorem mem_without {s : Finset δ} {o : Option δ} {d : δ} :
    d ∈ without s o ↔ d ∈ s ∧ o ≠ some d := by
  cases o with
  | none => simp [without]
  | some d' => simp [without, and_comm, eq_comm]

/-- The variables hold open descriptors, and no two the same. -/
structure Holds (h : Handles ι δ) : Prop where
  opened : ∀ {i d}, h.var i = some d → d ∈ h.opened
  distinct : ∀ {i j d}, h.var i = some d → h.var j = some d → i = j

/-- Every watched descriptor is open, and in one of the variables `P`. -/
def Owned (P : ι → Prop) (h : Handles ι δ) : Prop :=
  ∀ d ∈ h.interest, d ∈ h.opened ∧ ∃ i, P i ∧ h.var i = some d

/-- What the variables `P` hold is watched. -/
def Watched (P : ι → Prop) (h : Handles ι δ) : Prop :=
  ∀ i d, P i → h.var i = some d → d ∈ h.interest

/-- A watched descriptor is not forgotten, and only the variables `P` are watched. -/
def Careful (P : ι → Prop) (h : Handles ι δ) : Op ι δ → Prop
  | .take i _ | .close i => P i → ∀ d, h.var i = some d → d ∉ h.interest
  | .watch i => P i
  | .unwatch _ => True

/-- A watched descriptor that is in no variable. -/
structure Orphan (h : Handles ι δ) (d : δ) : Prop where
  opened : d ∈ h.opened
  watched : d ∈ h.interest
  lost : ∀ i, h.var i ≠ some d

variable {P : ι → Prop} {h h' : Handles ι δ} {op : Op ι δ} {ops : List (Op ι δ)} {d : δ} {i j : ι}

omit [DecidableEq δ] in
/-- An updated variable. -/
theorem update_eq_some {o : Option δ} :
    Function.update h.var i o j = some d ↔ (j = i ∧ o = some d) ∨ (j ≠ i ∧ h.var j = some d) := by
  by_cases hji : j = i
  · subst hji
    simp
  · simp [hji]

/-- What the operations do to the variables does not depend on the kernel. -/
theorem step_var (hstep : h.step op = some h') : h'.var = varAfter h.var op := by
  cases op with
  | take i d =>
    obtain ⟨-, hstep⟩ := Option.ite_none_left_eq_some.mp hstep
    obtain rfl := Option.some.inj hstep
    rfl
  | watch i =>
    obtain ⟨d, -, hstep⟩ := Option.bind_eq_some_iff.mp hstep
    obtain ⟨-, hstep⟩ := Option.ite_none_right_eq_some.mp hstep
    obtain rfl := Option.some.inj hstep
    rfl
  | close i | unwatch i =>
    obtain rfl := Option.some.inj hstep
    rfl

theorem exec_var (hexec : Machine.exec Handles.step h ops = some h') :
    h'.var = ops.foldl varAfter h.var := by
  induction ops generalizing h with
  | nil => exact Option.some.inj hexec ▸ rfl
  | cons op ops ih =>
    obtain ⟨h₁, h1, h2⟩ := Machine.exec_cons_eq_some.mp hexec
    rw [ih h2, step_var h1, List.foldl_cons]

theorem Holds.step (hh : Holds h) (hstep : h.step op = some h') : Holds h' := by
  cases op with
  | take i d =>
    obtain ⟨hnew, hstep⟩ := Option.ite_none_left_eq_some.mp hstep
    obtain rfl := Option.some.inj hstep
    constructor
    case opened =>
      intro j d' hj
      rcases update_eq_some.mp hj with ⟨-, hd⟩ | ⟨-, hj⟩
      · exact Finset.mem_insert.mpr (Or.inl (Option.some.inj hd).symm)
      · exact Finset.mem_insert_of_mem (hh.opened hj)
    case distinct =>
      intro j k d' hj hk
      -- a descriptor that was held before is not the new one
      rcases update_eq_some.mp hj with ⟨hji, hd⟩ | ⟨-, hj⟩
      · rcases update_eq_some.mp hk with ⟨hki, -⟩ | ⟨-, hk⟩
        · exact hji.trans hki.symm
        · exact absurd (hh.opened hk) (Option.some.inj hd ▸ hnew)
      · rcases update_eq_some.mp hk with ⟨-, hd⟩ | ⟨-, hk⟩
        · exact absurd (hh.opened hj) (Option.some.inj hd ▸ hnew)
        · exact hh.distinct hj hk
  | close i =>
    obtain rfl := Option.some.inj hstep
    constructor
    case opened =>
      intro j d' hj
      rcases update_eq_some.mp hj with ⟨-, hd⟩ | ⟨hji, hj⟩
      · cases hd
      · exact mem_without.mpr ⟨hh.opened hj, fun hi => hji (hh.distinct hj hi)⟩
    case distinct =>
      intro j k d' hj hk
      rcases update_eq_some.mp hj with ⟨-, hd⟩ | ⟨-, hj⟩
      · cases hd
      · rcases update_eq_some.mp hk with ⟨-, hd⟩ | ⟨-, hk⟩
        · cases hd
        · exact hh.distinct hj hk
  | watch i =>
    obtain ⟨d, -, hstep⟩ := Option.bind_eq_some_iff.mp hstep
    obtain ⟨-, hstep⟩ := Option.ite_none_right_eq_some.mp hstep
    obtain rfl := Option.some.inj hstep
    exact ⟨hh.opened, hh.distinct⟩
  | unwatch i =>
    obtain rfl := Option.some.inj hstep
    exact ⟨hh.opened, hh.distinct⟩

omit [DecidableEq ι] [DecidableEq δ] in
/-- Nothing can go wrong with another variable. -/
theorem careful_take (hi : ¬ P i) : Careful P h (.take i d) := fun h => absurd h hi

omit [DecidableEq ι] [DecidableEq δ] in
theorem careful_close (hi : ¬ P i) : Careful P h (.close i) := fun h => absurd h hi

/-- **Careful operations lose nothing that is watched.** -/
theorem owned_step (hh : Holds h) (ho : Owned P h) (hc : Careful P h op)
    (hstep : h.step op = some h') : Owned P h' := by
  intro d' hd'
  cases op with
  | take i d =>
    obtain ⟨-, hstep⟩ := Option.ite_none_left_eq_some.mp hstep
    obtain rfl := Option.some.inj hstep
    obtain ⟨hopen, j, hj, hvar⟩ := ho d' hd'
    -- its variable is not the one that is written, which holds nothing that is watched
    refine ⟨Finset.mem_insert_of_mem hopen, j, hj, update_eq_some.mpr (Or.inr ⟨?_, hvar⟩)⟩
    rintro rfl
    exact hc hj d' hvar hd'
  | close i =>
    obtain rfl := Option.some.inj hstep
    obtain ⟨hopen, j, hj, hvar⟩ := ho d' hd'
    have hne : j ≠ i := by
      rintro rfl
      exact hc hj d' hvar hd'
    exact ⟨mem_without.mpr ⟨hopen, fun hi => hne (hh.distinct hvar hi)⟩, j, hj,
      update_eq_some.mpr (Or.inr ⟨hne, hvar⟩)⟩
  | watch i =>
    obtain ⟨d, hvar, hstep⟩ := Option.bind_eq_some_iff.mp hstep
    obtain ⟨⟨hopen, -⟩, hstep⟩ := Option.ite_none_right_eq_some.mp hstep
    obtain rfl := Option.some.inj hstep
    rcases Finset.mem_insert.mp hd' with rfl | hd'
    · exact ⟨hopen, i, hc, hvar⟩
    · exact ho d' hd'
  | unwatch i =>
    obtain rfl := Option.some.inj hstep
    exact ho d' (mem_without.mp hd').1

/-- **Overwriting loses what is watched.** -/
theorem orphan_of_take (hh : Holds h) (hvar : h.var i = some d) (hd : d ∈ h.interest) {d' : δ}
    (hstep : h.step (.take i d') = some h') : Orphan h' d := by
  obtain ⟨hnew, hstep⟩ := Option.ite_none_left_eq_some.mp hstep
  obtain rfl := Option.some.inj hstep
  -- only `i` held it, and the new descriptor is another one, since it was not open
  refine ⟨Finset.mem_insert_of_mem (hh.opened hvar), hd, fun j hj => ?_⟩
  rcases update_eq_some.mp hj with ⟨-, heq⟩ | ⟨hji, hj⟩
  · exact hnew (Option.some.inj heq ▸ hh.opened hvar)
  · exact hji (hh.distinct hj hvar)

/-- **What is lost stays lost.** -/
theorem Orphan.step (ho : Orphan h d) (hstep : h.step op = some h') : Orphan h' d := by
  cases op with
  | take i d' =>
    obtain ⟨hnew, hstep⟩ := Option.ite_none_left_eq_some.mp hstep
    obtain rfl := Option.some.inj hstep
    refine ⟨Finset.mem_insert_of_mem ho.opened, ho.watched, fun j hj => ?_⟩
    rcases update_eq_some.mp hj with ⟨-, heq⟩ | ⟨-, hj⟩
    · exact hnew (Option.some.inj heq ▸ ho.opened)
    · exact ho.lost j hj
  | close i =>
    obtain rfl := Option.some.inj hstep
    refine ⟨mem_without.mpr ⟨ho.opened, ho.lost i⟩, ho.watched, fun j hj => ?_⟩
    rcases update_eq_some.mp hj with ⟨-, heq⟩ | ⟨-, hj⟩
    · cases heq
    · exact ho.lost j hj
  | watch i =>
    obtain ⟨d', -, hstep⟩ := Option.bind_eq_some_iff.mp hstep
    obtain ⟨-, hstep⟩ := Option.ite_none_right_eq_some.mp hstep
    obtain rfl := Option.some.inj hstep
    exact ⟨ho.opened, Finset.mem_insert_of_mem ho.watched, ho.lost⟩
  -- what is taken out of the watch is the descriptor of a variable
  | unwatch i =>
    obtain rfl := Option.some.inj hstep
    exact ⟨ho.opened, mem_without.mpr ⟨ho.watched, ho.lost i⟩, ho.lost⟩

/-! ### Several operations -/

theorem Holds.exec (hh : Holds h) (hexec : Machine.exec Handles.step h ops = some h') : Holds h' :=
  Machine.exec_invariant (I := Holds) (fun _ _ _ hh hstep => hh.step hstep) hh hexec

theorem Orphan.exec (ho : Orphan h d) (hexec : Machine.exec Handles.step h ops = some h') :
    Orphan h' d :=
  Machine.exec_invariant (I := fun h => Orphan h d) (fun _ _ _ ho hstep => ho.step hstep) ho hexec

theorem owned_exec (hh : Holds h) (ho : Owned P h)
    (hc : Machine.StepsMeet Handles.step (Careful P) h ops)
    (hexec : Machine.exec Handles.step h ops = some h') : Owned P h' :=
  (Machine.always_of_stepsMeet (I := fun h => Holds h ∧ Owned P h) (P := Owned P)
    (fun _ _ _ hi hc hstep => ⟨hi.1.step hstep, owned_step hi.1 hi.2 hc hstep⟩)
    (fun _ hi => hi.2) ⟨hh, ho⟩ hc).last hexec

/-! ### What is watched -/

/-- The descriptor is new to the variable, and not watched yet. -/
theorem Watched.take (hw : Watched P h) {d : δ} (hstep : h.step (.take i d) = some h') :
    Watched (fun j => P j ∧ j ≠ i) h' := by
  obtain ⟨-, hstep⟩ := Option.ite_none_left_eq_some.mp hstep
  obtain rfl := Option.some.inj hstep
  intro j d' hj hvar
  rcases update_eq_some.mp hvar with ⟨hji, -⟩ | ⟨-, hvar⟩
  · exact absurd hji hj.2
  · exact hw j d' hj.1 hvar

theorem Watched.watch (hw : Watched P h) (hstep : h.step (.watch i) = some h') :
    Watched (fun j => P j ∨ j = i) h' := by
  obtain ⟨d, hvar, hstep⟩ := Option.bind_eq_some_iff.mp hstep
  obtain ⟨-, hstep⟩ := Option.ite_none_right_eq_some.mp hstep
  obtain rfl := Option.some.inj hstep
  intro j d' hj hvar'
  -- `i` holds what has just been added
  rcases hj with hj | rfl
  · exact Finset.mem_insert_of_mem (hw j d' hj hvar')
  · exact Finset.mem_insert.mpr (Or.inl (Option.some.inj (hvar'.symm.trans hvar)))

/-- A variable that is not watched is closed. -/
theorem Watched.close (hw : Watched P h) (hstep : h.step (.close i) = some h') :
    Watched (fun j => P j ∨ j = i) h' := by
  obtain rfl := Option.some.inj hstep
  intro j d' hj hvar
  rcases update_eq_some.mp hvar with ⟨-, hd⟩ | ⟨hji, hvar⟩
  · cases hd
  · exact hw j d' (hj.resolve_right hji) hvar

theorem Watched.unwatch (hh : Holds h) (hw : Watched P h) (hstep : h.step (.unwatch i) = some h') :
    Watched (fun j => P j ∧ j ≠ i) h' := by
  obtain rfl := Option.some.inj hstep
  intro j d' hj hvar
  exact mem_without.mpr ⟨hw j d' hj.1 hvar, fun hi => hj.2 (hh.distinct hvar hi)⟩

omit [DecidableEq ι] [DecidableEq δ] in
theorem Watched.mono {Q : ι → Prop} (hw : Watched P h) (himp : ∀ i, Q i → P i) : Watched Q h :=
  fun i d hi hvar => hw i d (himp i hi) hvar

/-- Only `unwatch` ends a watch. -/
theorem interest_step (hstep : h.step op = some h') (hd : d ∈ h.interest)
    (hne : ∀ i, op = .unwatch i → h.var i ≠ some d) : d ∈ h'.interest := by
  cases op with
  | take i d' =>
    obtain ⟨-, hstep⟩ := Option.ite_none_left_eq_some.mp hstep
    obtain rfl := Option.some.inj hstep
    exact hd
  | close i =>
    obtain rfl := Option.some.inj hstep
    exact hd
  | watch i =>
    obtain ⟨d', -, hstep⟩ := Option.bind_eq_some_iff.mp hstep
    obtain ⟨-, hstep⟩ := Option.ite_none_right_eq_some.mp hstep
    obtain rfl := Option.some.inj hstep
    exact Finset.mem_insert_of_mem hd
  | unwatch i =>
    obtain rfl := Option.some.inj hstep
    exact mem_without.mpr ⟨hd, hne i rfl⟩

theorem interest_exec (hexec : Machine.exec Handles.step h ops = some h') (hd : d ∈ h.interest)
    (hne : ∀ i, .unwatch i ∉ ops) : d ∈ h'.interest := by
  induction ops generalizing h with
  | nil => exact Option.some.inj hexec ▸ hd
  | cons op ops ih =>
    obtain ⟨h₁, h1, h2⟩ := Machine.exec_cons_eq_some.mp hexec
    refine ih h2 (interest_step h1 hd fun i hop => ?_) fun i hi =>
      hne i (List.mem_cons_of_mem op hi)
    exact absurd (hop ▸ List.mem_cons_self) (hne i)

/-- What is open has been open, or has been taken. -/
theorem mem_opened_exec (hexec : Machine.exec Handles.step h ops = some h')
    (hd : d ∈ h'.opened) : d ∈ h.opened ∨ ∃ i, .take i d ∈ ops := by
  induction ops generalizing h with
  | nil => exact Or.inl (Option.some.inj hexec ▸ hd)
  | cons op ops ih =>
    obtain ⟨h₁, h1, h2⟩ := Machine.exec_cons_eq_some.mp hexec
    rcases ih h2 with hmem | ⟨i, hi⟩
    · cases op with
      | take i d' =>
        obtain ⟨-, h1⟩ := Option.ite_none_left_eq_some.mp h1
        obtain rfl := Option.some.inj h1
        rcases Finset.mem_insert.mp hmem with rfl | hmem
        · exact Or.inr ⟨i, List.mem_cons_self⟩
        · exact Or.inl hmem
      | close i =>
        obtain rfl := Option.some.inj h1
        exact Or.inl (mem_without.mp hmem).1
      | watch i =>
        obtain ⟨_, -, h1⟩ := Option.bind_eq_some_iff.mp h1
        obtain ⟨-, h1⟩ := Option.ite_none_right_eq_some.mp h1
        obtain rfl := Option.some.inj h1
        exact Or.inl hmem
      | unwatch i =>
        obtain rfl := Option.some.inj h1
        exact Or.inl hmem
    · exact Or.inr ⟨i, List.mem_cons_of_mem op hi⟩

/-! ### Giving a descriptor back -/

/-- What has been taken out of the watch can be closed. -/
theorem careful_release (i : ι)
    (hops : ∀ h : Handles ι δ, Machine.StepsMeet Handles.step (Careful P) h ops) :
    Machine.StepsMeet Handles.step (Careful P) h (.unwatch i :: .close i :: ops) := by
  refine ⟨trivial, fun h₁ h1 => ⟨fun _ d hvar hd => ?_, fun h₂ _ => hops h₂⟩⟩
  obtain rfl := Option.some.inj h1
  exact (mem_without.mp hd).2 hvar

/-- The other variables are watched as before, and this one is free. -/
theorem Watched.release {h₁ h₂ : Handles ι δ} (hh : Holds h) (hw : Watched P h)
    (h1 : h.step (.unwatch i) = some h₁) (h2 : h₁.step (.close i) = some h₂) : Watched P h₂ := by
  refine ((hw.unwatch hh h1).close h2).mono fun j hj => ?_
  by_cases hji : j = i
  · exact Or.inr hji
  · exact Or.inl ⟨hj, hji⟩

end Handles
