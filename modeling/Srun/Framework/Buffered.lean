import Mathlib

/-!
# Buffered output streams

An output stream between a program and the operating system. A call of the library takes
elements from its argument into the buffer (`put`) and has the system write from the buffer
(`write`), when and as much as it likes; the system accepts all, some or none of what it is
offered, or fails. After a failure the call is over.

Elements only move on, from `pending` through `buffer` to `accepted` (`step_content`), so a
call that has taken everything has put it into the buffer or handed it on.
-/

namespace Buffered

/-- A stream during a call. -/
structure Stream (α : Type) where
  /-- What the call has not taken yet. -/
  pending : List α
  buffer : List α := []
  /-- What the system has accepted. -/
  accepted : List α := []
  /-- A write of the call has failed. -/
  failed : Bool := false
  deriving DecidableEq

/-- What a call does. -/
inductive Act
  /-- Take elements into the buffer. -/
  | put (n : ℕ)
  /-- A write by the system: how much it accepts, `none` when it fails. -/
  | write (r : Option ℕ)
  deriving DecidableEq

/-- The step takes elements from the argument of the call. -/
def Act.isPut : Act → Bool
  | .put _ => true
  | .write _ => false

variable {α : Type}

def step (s : Stream α) : Act → Option (Stream α)
  | .put n =>
    if s.failed = false ∧ n ≤ s.pending.length then
      some { s with pending := s.pending.drop n, buffer := s.buffer ++ s.pending.take n }
    else none
  | .write none =>
    if s.failed = false ∧ s.buffer ≠ [] then some { s with failed := true } else none
  | .write (some n) =>
    if s.failed = false ∧ s.buffer ≠ [] ∧ n ≤ s.buffer.length then
      some { s with buffer := s.buffer.drop n, accepted := s.accepted ++ s.buffer.take n }
    else none

namespace Stream

/-- The elements in the order in which they leave. -/
def content (s : Stream α) : List α := s.accepted ++ s.buffer ++ s.pending

/-- A call that puts out elements is over. -/
def Taken (s : Stream α) : Prop := s.pending = [] ∨ s.failed = true

/-- A call that empties the buffer is over. -/
def Flushed (s : Stream α) : Prop := s.buffer = [] ∨ s.failed = true

instance [DecidableEq α] (s : Stream α) : Decidable s.Taken :=
  inferInstanceAs (Decidable (_ ∨ _))

instance [DecidableEq α] (s : Stream α) : Decidable s.Flushed :=
  inferInstanceAs (Decidable (_ ∨ _))

end Stream

variable {s s' : Stream α} {a : Act}

/-- What one step can do. -/
theorem step_cases (h : step s a = some s') :
    s.failed = false ∧
      ((∃ n, a = .put n ∧
          s' = { s with pending := s.pending.drop n, buffer := s.buffer ++ s.pending.take n }) ∨
        (a = .write none ∧ s.buffer ≠ [] ∧ s' = { s with failed := true }) ∨
        ∃ n, a = .write (some n) ∧
          s' =
            { s with buffer := s.buffer.drop n, accepted := s.accepted ++ s.buffer.take n }) := by
  cases a with
  | put n =>
    obtain ⟨hguard, h⟩ := Option.ite_none_right_eq_some.mp h
    exact ⟨hguard.1, Or.inl ⟨n, rfl, (Option.some.inj h).symm⟩⟩
  | write r =>
    cases r with
    | none =>
      obtain ⟨hguard, h⟩ := Option.ite_none_right_eq_some.mp h
      exact ⟨hguard.1, Or.inr (Or.inl ⟨rfl, hguard.2, (Option.some.inj h).symm⟩)⟩
    | some n =>
      obtain ⟨hguard, h⟩ := Option.ite_none_right_eq_some.mp h
      exact ⟨hguard.1, Or.inr (Or.inr ⟨n, rfl, (Option.some.inj h).symm⟩)⟩

/-- Nothing is lost, duplicated or reordered in the stream. -/
theorem step_content (h : step s a = some s') : s'.content = s.content := by
  obtain ⟨-, ⟨n, -, rfl⟩ | ⟨-, -, rfl⟩ | ⟨n, -, rfl⟩⟩ := step_cases h
  · -- into the buffer at its end; a failure moves nothing; out of it at its front
    simp [Stream.content]
  · rfl
  · calc s.accepted ++ s.buffer.take n ++ s.buffer.drop n ++ s.pending
        = s.accepted ++ (s.buffer.take n ++ s.buffer.drop n) ++ s.pending := by
          simp only [List.append_assoc]
      _ = s.content := by rw [List.take_append_drop, Stream.content]

/-- A call takes no step after a failure, and only a failing write is one. -/
theorem failed_iff_of_step (h : step s a = some s') : s'.failed = true ↔ a = .write none := by
  obtain ⟨hs, ⟨n, rfl, rfl⟩ | ⟨rfl, -, rfl⟩ | ⟨n, rfl, rfl⟩⟩ := step_cases h
  · simp [hs]
  · simp
  · simp [hs]

/-- A failing write leaves something in the buffer. -/
theorem buffer_of_failed (h : step s (.write none) = some s') : s'.buffer ≠ [] := by
  obtain ⟨-, ⟨n, ha, -⟩ | ⟨-, hne, rfl⟩ | ⟨n, ha, -⟩⟩ := step_cases h
  · cases ha
  · exact hne
  · cases ha

/-- A stream whose elements have all been taken stays one. -/
theorem pending_of_step (h : step s a = some s') (hs : s.pending = []) : s'.pending = [] := by
  obtain ⟨-, ⟨n, -, rfl⟩ | ⟨-, -, rfl⟩ | ⟨n, -, rfl⟩⟩ := step_cases h
  · simp [hs]
  · exact hs
  · exact hs

end Buffered
