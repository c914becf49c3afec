import Mathlib

/-!
# Advisory locks of open file descriptions

`flock(2)`. A lock belongs to an open file description, not to a process: of the
locks of other descriptions a request has to wait for those that conflict with it,
and it replaces the lock of its own.

Two facts follow. Between descriptions the locks are compatible for ever, because
a request is granted exactly when it keeps them so (`compatible_after_iff`).
Processes that share one description never wait (`grants_of_forall`), so between
them the locks exclude nothing.
-/

namespace Flock

/-- The operations. -/
inductive Op
  | sh
  | ex
  | un
  deriving DecidableEq

/-- The two kinds of locks. -/
inductive Mode
  | sh
  | ex
  deriving DecidableEq

/-- What is held after the operation. -/
def Op.mode : Op → Option Mode
  | .sh => some .sh
  | .ex => some .ex
  | .un => none

/-- The locks of one file, by description. -/
abbrev Locks (Desc : Type) := List (Desc × Mode)

variable {Desc : Type} [DecidableEq Desc]

/-- The operation does not wait. -/
def Locks.grants (locks : Locks Desc) (d : Desc) : Op → Bool
  | .sh => locks.all fun e => e.1 = d || e.2 = .sh
  | .ex => locks.all fun e => e.1 = d
  | .un => true

/-- The locks after the operation. -/
def Locks.after (locks : Locks Desc) (d : Desc) (op : Op) : Locks Desc :=
  let others := locks.filter (·.1 ≠ d)
  match op with
  | .sh => (d, .sh) :: others
  | .ex => (d, .ex) :: others
  | .un => others

/-- Different descriptions hold shared locks only. -/
def Locks.Compatible (locks : Locks Desc) : Prop :=
  ∀ e ∈ locks, ∀ f ∈ locks, e.1 ≠ f.1 → e.2 = .sh ∧ f.2 = .sh

variable {locks : Locks Desc} {d : Desc} {op : Op}

theorem mem_after {e : Desc × Mode} :
    e ∈ locks.after d op ↔ (e.1 = d ∧ op.mode = some e.2) ∨ (e.1 ≠ d ∧ e ∈ locks) := by
  obtain ⟨c, m⟩ := e
  have hothers : (c, m) ∈ locks.filter (·.1 ≠ d) ↔ c ≠ d ∧ (c, m) ∈ locks := by
    simp [and_comm]
  cases op with
  | un => simp [Locks.after, Op.mode, and_comm]
  | _ =>
    simp only [Locks.after, Op.mode, List.mem_cons, hothers, Prod.mk.injEq, Option.some.injEq]
    exact or_congr_left (and_congr_right fun _ => eq_comm)

theorem grants_iff : locks.grants d op = true ↔
    ∀ m, op.mode = some m → ∀ e ∈ locks, e.1 ≠ d → m = .sh ∧ e.2 = .sh := by
  cases op with
  | sh => simp [Locks.grants, Op.mode, or_iff_not_imp_left]
  | ex => simp [Locks.grants, Op.mode]
  | un => simp [Locks.grants, Op.mode]

/-- **A request is granted exactly when it keeps the locks compatible.** -/
theorem compatible_after_iff (h : locks.Compatible) :
    (locks.after d op).Compatible ↔ locks.grants d op = true := by
  rw [grants_iff]
  constructor
  · intro hc m hm e he hne
    -- the granted lock is among the locks afterwards, next to those of the others
    exact (hc (d, m) (mem_after.mpr (Or.inl ⟨rfl, hm⟩)) e (mem_after.mpr (Or.inr ⟨hne, he⟩))
      hne.symm)
  · intro hg e he f hf hne
    -- both old, or one of them the new lock of `d`; `d` has no second one
    rcases mem_after.mp he with ⟨hd, hm⟩ | ⟨hd, he⟩ <;>
      rcases mem_after.mp hf with ⟨hd', hm'⟩ | ⟨hd', hf⟩
    · exact absurd (hd.trans hd'.symm) hne
    · exact hg _ hm f hf hd'
    · exact (hg _ hm' e he hd).symm
    · exact h e he f hf hne

/-- **One description never waits.** -/
theorem grants_of_forall (h : ∀ e ∈ locks, e.1 = d) : locks.grants d op = true :=
  grants_iff.mpr fun _ _ e he hne => absurd (h e he) hne

/-- A description's operations leave no locks but its own. -/
theorem after_forall (h : ∀ e ∈ locks, e.1 = d) : ∀ e ∈ locks.after d op, e.1 = d := by
  intro e he
  rcases mem_after.mp he with ⟨hd, -⟩ | ⟨-, he⟩
  · exact hd
  · exact h e he

end Flock
