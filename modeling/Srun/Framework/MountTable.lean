import Mathlib

/-!
# Mount tables

The file systems that are mounted, in the order in which they have been mounted: of two at one
directory the later one lies on top, and `umount` takes it away. The lemmas say what is mounted
at each directory after an operation.
-/

/-- A file system of type `type`, mounted at `dir`. -/
structure MountEntry (Dir Fs : Type) where
  dir : Dir
  type : Fs
  deriving DecidableEq

/-- The mounted file systems, the latest one last. -/
abbrev MountTable (Dir Fs : Type) := List (MountEntry Dir Fs)

namespace MountTable

/-- Erasing the first element with a property, seen by those who have it. -/
theorem filter_eraseP_self {α : Type} (p : α → Bool) (l : List α) :
    (l.eraseP p).filter p = (l.filter p).tail := by
  induction l with
  | nil => rfl
  | cons a l ih =>
    cases ha : p a with
    | true => rw [List.eraseP_cons_of_pos ha, List.filter_cons_of_pos ha, List.tail_cons]
    | false =>
      have hneg : ¬ p a = true := by rw [ha]; decide
      rw [List.eraseP_cons_of_neg hneg, List.filter_cons_of_neg hneg,
        List.filter_cons_of_neg hneg, ih]

/-- And by the others. -/
theorem filter_eraseP_of_disjoint {α : Type} {p q : α → Bool}
    (h : ∀ a, p a = true → q a = false) (l : List α) : (l.eraseP p).filter q = l.filter q := by
  induction l with
  | nil => rfl
  | cons a l ih =>
    cases ha : p a with
    | true => rw [List.eraseP_cons_of_pos ha, List.filter_cons_of_neg (by rw [h a ha]; decide)]
    | false =>
      rw [List.eraseP_cons_of_neg (by rw [ha]; decide), List.filter_cons, List.filter_cons, ih]

variable {Dir Fs : Type} [DecidableEq Dir]

/-- What is mounted at `d`, the topmost one last. -/
def mountedAt (t : MountTable Dir Fs) (d : Dir) : MountTable Dir Fs := t.filter (·.dir = d)

def mount (t : MountTable Dir Fs) (e : MountEntry Dir Fs) : MountTable Dir Fs := t ++ [e]

/-- The topmost file system at `d` is taken away. -/
def umount (t : MountTable Dir Fs) (d : Dir) : MountTable Dir Fs :=
  (t.reverse.eraseP (·.dir = d)).reverse

variable (t : MountTable Dir Fs) (e : MountEntry Dir Fs) {d d' : Dir}

theorem mountedAt_mount_self : mountedAt (mount t e) e.dir = mountedAt t e.dir ++ [e] := by
  rw [mountedAt, mount, List.filter_append, List.filter_cons_of_pos (by simp), List.filter_nil]
  rfl

theorem mountedAt_mount_of_ne (h : e.dir ≠ d) : mountedAt (mount t e) d = mountedAt t d := by
  rw [mountedAt, mount, List.filter_append, List.filter_cons_of_neg (by simp [h]), List.filter_nil,
    List.append_nil]
  rfl

theorem mountedAt_umount_self : mountedAt (umount t d) d = (mountedAt t d).dropLast := by
  rw [mountedAt, umount, List.filter_reverse, filter_eraseP_self, List.filter_reverse,
    List.tail_reverse, List.reverse_reverse]
  rfl

theorem mountedAt_umount_of_ne (h : d' ≠ d) : mountedAt (umount t d') d = mountedAt t d := by
  rw [mountedAt, umount, List.filter_reverse,
    filter_eraseP_of_disjoint (fun a ha => by simp_all), List.filter_reverse, List.reverse_reverse]
  rfl

end MountTable
