import Mathlib

/-!
# Descriptor tables

The descriptors of a process: which open file each number refers to. New descriptors take
the lowest free number. A process that is forked gets a copy of the table, which here is the
table itself, since tables are values.

The lemmas say what a table holds after an operation, number by number.
-/

/-- A descriptor table over open files of type `α`. -/
structure FdTable (α : Type) where
  file : ℕ → Option α
  /-- Only finitely many descriptors are open, so there is always a free number. -/
  finite : ∃ n, ∀ m, n ≤ m → file m = none

namespace FdTable

variable {α β : Type}

theorem exists_free (t : FdTable α) : ∃ n, (t.file n).isNone = true := by
  obtain ⟨n, hn⟩ := t.finite
  exact ⟨n, by rw [hn n (le_refl n)]; rfl⟩

/-- The lowest free number, which is the one that the next `open` returns. -/
def free (t : FdTable α) : ℕ := Nat.find t.exists_free

/-- Let `n` refer to `f`, or to nothing. -/
def set (t : FdTable α) (n : ℕ) (f : Option α) : FdTable α where
  file := Function.update t.file n f
  finite := by
    obtain ⟨k, hk⟩ := t.finite
    refine ⟨max k (n + 1), fun m hm => ?_⟩
    rw [Function.update_of_ne (by omega), hk m (by omega)]

/-- `open`: the descriptor and the table. -/
def openFile (t : FdTable α) (f : α) : ℕ × FdTable α := (t.free, t.set t.free (some f))

/-- `close`, which may as well be of a number that is free. -/
def close (t : FdTable α) (n : ℕ) : FdTable α := t.set n none

/-- `dup2 n m`: an open `n`, and not `m` itself, takes the place of `m`. -/
def dup2 (t : FdTable α) (n m : ℕ) : FdTable α :=
  if (t.file n).isNone = true ∨ n = m then t else t.set m (t.file n)

/-- `pipe`: the two descriptors and the table. -/
def pipe (t : FdTable α) (r w : α) : (ℕ × ℕ) × FdTable α :=
  ((t.free, (t.set t.free (some r)).free),
    (t.set t.free (some r)).set (t.set t.free (some r)).free (some w))

/-- The same descriptors for other names of the files. -/
def map (g : α → β) (t : FdTable α) : FdTable β where
  file n := (t.file n).map g
  finite := by
    obtain ⟨k, hk⟩ := t.finite
    exact ⟨k, fun m hm => by rw [hk m hm]; rfl⟩

@[simp] theorem map_file (g : α → β) (t : FdTable α) (n : ℕ) :
    (t.map g).file n = (t.file n).map g := rfl

/-- The descriptors of the files with `p`, as after an `execv` that closes the others. -/
def keep (p : α → Bool) (t : FdTable α) : FdTable α where
  file n := (t.file n).filter p
  finite := by
    obtain ⟨k, hk⟩ := t.finite
    exact ⟨k, fun m hm => by rw [hk m hm]; rfl⟩

@[simp] theorem keep_file (p : α → Bool) (t : FdTable α) (n : ℕ) :
    (t.keep p).file n = (t.file n).filter p := rfl

theorem ext_file {t t' : FdTable α} (h : ∀ n, t.file n = t'.file n) : t = t' := by
  obtain ⟨file, finite⟩ := t
  obtain ⟨file', finite'⟩ := t'
  obtain rfl : file = file' := funext h
  rfl

theorem free_file (t : FdTable α) : t.file t.free = none :=
  Option.isNone_iff_eq_none.mp (Nat.find_spec t.exists_free)

theorem set_file (t : FdTable α) (n m : ℕ) (f : Option α) :
    (t.set n f).file m = if m = n then f else t.file m := by
  simp only [set, Function.update_apply]

theorem close_file (t : FdTable α) (n m : ℕ) :
    (t.close n).file m = if m = n then none else t.file m := set_file t n m none

theorem openFile_file (t : FdTable α) (f : α) (m : ℕ) :
    (t.openFile f).2.file m = if m = t.free then some f else t.file m := set_file _ _ _ _

/-- The tables differ in the descriptors of `f` at most: every other file is where it has been,
and nowhere else. -/
def AgreeOff (f : α) (t t' : FdTable α) : Prop :=
  ∀ g, g ≠ f → ∀ n, t'.file n = some g ↔ t.file n = some g

theorem agreeOff_openFile (t : FdTable α) (f : α) : AgreeOff f t (t.openFile f).2 := by
  intro g hne n
  rw [openFile_file]
  split
  · next hn =>
    rw [hn, free_file]
    -- the number was free, and now it is `f`
    exact iff_of_false (fun heq => hne (Option.some.inj heq).symm) (Option.some_ne_none g).symm
  · rfl

theorem agreeOff_close {t : FdTable α} {k : ℕ} {f : α} (hk : t.file k = some f) :
    AgreeOff f t (t.close k) := by
  intro g hne n
  rw [close_file]
  split
  · next hn =>
    rw [hn, hk]
    exact iff_of_false (Option.some_ne_none g).symm fun heq => hne (Option.some.inj heq).symm
  · rfl

/-- What is opened takes no place that has been taken. -/
theorem openFile_file_of_some {t : FdTable α} {n : ℕ} {g : α} (f : α) (h : t.file n = some g) :
    (t.openFile f).2.file n = some g := by
  rw [openFile_file, if_neg, h]
  rintro rfl
  rw [free_file] at h
  cases h

theorem pipe_eq (t : FdTable α) (r w : α) :
    t.pipe r w = (((t.openFile r).1, ((t.openFile r).2.openFile w).1),
      ((t.openFile r).2.openFile w).2) := rfl

/-- Names make no difference to what is free. -/
theorem free_map (g : α → β) (t : FdTable α) : (t.map g).free = t.free := by
  unfold free
  congr 1
  ext n
  rw [map_file, Option.isNone_map]

theorem set_map (g : α → β) (t : FdTable α) (n : ℕ) (f : Option α) :
    (t.set n f).map g = (t.map g).set n (f.map g) := by
  refine ext_file fun m => ?_
  rw [map_file, set_file, set_file, apply_ite (Option.map g), map_file]

theorem openFile_map (g : α → β) (t : FdTable α) (f : α) :
    (t.openFile f).2.map g = ((t.map g).openFile (g f)).2 := by
  rw [openFile, openFile, set_map, free_map]
  rfl

theorem close_map (g : α → β) (t : FdTable α) (n : ℕ) : (t.close n).map g = (t.map g).close n :=
  set_map g t n none

/-- `fd` is -1, or a descriptor of `f`. Programs keep a descriptor in a member that is -1 while
nothing is open. -/
def Refers (t : FdTable α) (fd : Int) (f : α) : Prop :=
  fd = -1 ∨ ∃ k : ℕ, fd = k ∧ t.file k = some f

theorem Refers.congr {t t' : FdTable α} {fd : Int} {f : α} (h : t.Refers fd f)
    (hfile : ∀ n, t.file n = some f → t'.file n = some f) : t'.Refers fd f := by
  rcases h with h | ⟨k, hk, hf⟩
  · exact Or.inl h
  · exact Or.inr ⟨k, hk, hfile k hf⟩

theorem refers_openFile (t : FdTable α) (f : α) : (t.openFile f).2.Refers (t.openFile f).1 f := by
  refine Or.inr ⟨_, rfl, ?_⟩
  rw [openFile_file]
  exact if_pos rfl

theorem Refers.openFile {t : FdTable α} {fd : Int} {g : α} (h : t.Refers fd g) (f : α) :
    (t.openFile f).2.Refers fd g := h.congr fun _ => openFile_file_of_some f

theorem Refers.agree {t t' : FdTable α} {fd : Int} {f g : α} (h : t.Refers fd g)
    (hagree : AgreeOff f t t') (hne : g ≠ f) : t'.Refers fd g :=
  h.congr fun n => (hagree g hne n).mpr

/-- A descriptor that is opened and closed again leaves no trace. -/
theorem close_openFile (t : FdTable α) (f : α) : (t.openFile f).2.close t.free = t := by
  refine ext_file fun n => ?_
  rw [close_file, openFile_file]
  split
  · next hn => rw [hn, free_file]
  · rfl

/-- A pipe takes two free numbers. -/
theorem pipe_free (t : FdTable α) (r w : α) :
    (t.pipe r w).1.1 ≠ (t.pipe r w).1.2 ∧ t.file (t.pipe r w).1.1 = none ∧
      t.file (t.pipe r w).1.2 = none := by
  -- the first number is taken when the second one is looked for
  have hsecond := free_file (t.set t.free (some r))
  rw [set_file] at hsecond
  split at hsecond
  · cases hsecond
  · next hne => exact ⟨fun h => hne h.symm, free_file t, hsecond⟩

theorem pipe_file (t : FdTable α) (r w : α) (m : ℕ) :
    (t.pipe r w).2.file m =
      if m = (t.pipe r w).1.2 then some w
      else if m = (t.pipe r w).1.1 then some r else t.file m := by
  simp only [pipe, set_file]
  rfl

theorem dup2_file {t : FdTable α} {n m : ℕ} {f : α} (hf : t.file n = some f) (hne : n ≠ m) (k : ℕ) :
    (t.dup2 n m).file k = if k = m then some f else t.file k := by
  have hguard : ¬ ((t.file n).isNone = true ∨ n = m) := by
    rw [hf]
    exact not_or.mpr ⟨Bool.false_ne_true, hne⟩
  rw [dup2, if_neg hguard, set_file, hf]

theorem dup2_file_of_ne (t : FdTable α) (n : ℕ) {m k : ℕ} (h : k ≠ m) :
    (t.dup2 n m).file k = t.file k := by
  unfold dup2
  split
  · rfl
  · rw [set_file, if_neg h]

end FdTable
