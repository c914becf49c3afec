import Mathlib

/-!
# Environments

An environment is a list of names with their values, as a C program finds it in `environ`: the
first entry of a name counts, and a name that is set keeps its place.

`lookup_putAll` is what a series of assignments amounts to: the last one of a name wins, and a
name that none of them sets has the value that it had.
-/

namespace Environ

variable {α β : Type} [DecidableEq α]

/-- Set a name: in its place, or at the end. -/
def put : List (α × β) → α → β → List (α × β)
  | [], name, value => [(name, value)]
  | p :: environ, name, value =>
    if p.1 = name then (name, value) :: environ else p :: put environ name value

/-- Set names one after the other. -/
def putAll (environ : List (α × β)) (ps : List (α × β)) : List (α × β) :=
  ps.foldl (fun environ p => put environ p.1 p.2) environ

theorem lookup_cons_of_ne {p : α × β} {environ : List (α × β)} {name : α} (h : p.1 ≠ name) :
    (p :: environ).lookup name = environ.lookup name := by
  rw [List.lookup_cons, beq_eq_false_iff_ne.mpr (Ne.symm h)]

theorem lookup_put_self (environ : List (α × β)) (name : α) (value : β) :
    (put environ name value).lookup name = some value := by
  induction environ with
  | nil => exact List.lookup_cons_self
  | cons p environ ih =>
    rw [put]
    split
    · exact List.lookup_cons_self
    · next hne => rw [lookup_cons_of_ne hne, ih]

theorem lookup_put_of_ne {name name' : α} (h : name ≠ name') (environ : List (α × β))
    (value : β) : (put environ name value).lookup name' = environ.lookup name' := by
  induction environ with
  | nil => exact lookup_cons_of_ne h
  | cons p environ ih =>
    rw [put]
    split
    · next heq => rw [lookup_cons_of_ne h, lookup_cons_of_ne (heq ▸ h)]
    · -- the entry in front is of another name than the one that is set
      by_cases hp : p.1 = name'
      · obtain ⟨n, v⟩ := p
        cases hp
        rw [List.lookup_cons_self, List.lookup_cons_self]
      · rw [lookup_cons_of_ne hp, lookup_cons_of_ne hp, ih]

/-- Setting a name changes this name only. -/
theorem lookup_put (environ : List (α × β)) (p : α × β) (name : α) :
    (put environ p.1 p.2).lookup name = ([p].lookup name).or (environ.lookup name) := by
  by_cases h : p.1 = name
  · cases h
    rw [lookup_put_self, List.lookup_cons_self]
    rfl
  · rw [lookup_put_of_ne h, lookup_cons_of_ne h]
    rfl

theorem putAll_append (environ ps qs : List (α × β)) :
    putAll environ (ps ++ qs) = putAll (putAll environ ps) qs := List.foldl_append

/-- **The last one wins.** -/
theorem lookup_putAll (environ ps : List (α × β)) (name : α) :
    (putAll environ ps).lookup name = (ps.reverse.lookup name).or (environ.lookup name) := by
  -- on the assignment that comes last
  induction ps using List.reverseRecOn with
  | nil => rfl
  | append_singleton ps p ih =>
    rw [putAll_append, List.reverse_append]
    show (put (putAll environ ps) p.1 p.2).lookup name = _
    rw [lookup_put, ih, List.reverse_singleton, List.lookup_append, Option.or_assoc]

end Environ
