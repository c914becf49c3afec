import Mathlib

/-!
# Paths

Paths as walks from directory to directory. A path is cut into components at each separator;
a component leads to an entry of the directory, to its parent, or nowhere. The root is its
own parent.

A walk that never goes above its start ends below it. How far below is a matter of counting:
`depth` follows the walk without the names, and gives up where the walk leaves its start.
-/

namespace Paths

/-- A component of a path. -/
inductive Component (ν : Type)
  | here
  | up
  | down (name : ν)
  deriving DecidableEq

variable {ν : Type}

/-- One component; a directory is given by its names from the root. -/
def walkOne (dir : List ν) : Component ν → List ν
  | .here => dir
  | .up => dir.dropLast
  | .down name => dir ++ [name]

def walk (dir : List ν) (cs : List (Component ν)) : List ν := cs.foldl walkOne dir

/-- How far below its start a walk ends, when it is `n` below at first; `none` when it goes
above its start on the way. -/
def depth : ℕ → List (Component ν) → Option ℕ
  | n, [] => some n
  | n, .here :: cs => depth n cs
  | 0, .up :: _ => none
  | n + 1, .up :: cs => depth n cs
  | n, .down _ :: cs => depth (n + 1) cs

/-- `path` is an entry of `dir`, or of a directory below it. -/
def Below (dir path : List ν) : Prop := dir <+: path ∧ dir ≠ path

instance [DecidableEq ν] (dir path : List ν) : Decidable (Below dir path) :=
  inferInstanceAs (Decidable (_ ∧ _))

theorem below_append {dir below : List ν} (h : below ≠ []) : Below dir (dir ++ below) :=
  ⟨List.prefix_append dir below, fun heq => h (List.self_eq_append_right.mp heq)⟩

theorem walk_append (dir : List ν) (cs cs' : List (Component ν)) :
    walk dir (cs ++ cs') = walk (walk dir cs) cs' :=
  List.foldl_append

/-- A walk that stays below `dir` does not touch its names, and goes on as it would from the
root. -/
theorem walk_append_of_depth {cs : List (Component ν)} {n : ℕ} (dir below : List ν)
    (h : depth below.length cs = some n) :
    walk (dir ++ below) cs = dir ++ walk below cs ∧ (walk below cs).length = n := by
  induction cs generalizing below with
  | nil => exact ⟨rfl, Option.some.inj h⟩
  | cons c cs ih =>
    cases c with
    | here => exact ih below h
    | down name =>
      have hstep : walkOne (dir ++ below) (.down name) = dir ++ (below ++ [name]) :=
        List.append_assoc dir below [name]
      rw [walk, List.foldl_cons, hstep]
      exact ih (below ++ [name]) (by rwa [List.length_append])
    | up =>
      -- there is a name below `dir` that can be dropped
      cases hb : below.length with
      | zero => rw [hb] at h; cases h
      | succ m =>
        have hne : below ≠ [] := fun heq => by rw [heq] at hb; cases hb
        have hstep : walkOne (dir ++ below) .up = dir ++ below.dropLast :=
          List.dropLast_append_of_ne_nil hne
        rw [walk, List.foldl_cons, hstep]
        refine ih below.dropLast ?_
        rw [hb] at h
        rwa [List.length_dropLast, hb]

theorem walk_of_depth {cs : List (Component ν)} {n : ℕ} (dir below : List ν)
    (h : depth below.length cs = some n) :
    ∃ below', walk (dir ++ below) cs = dir ++ below' ∧ below'.length = n :=
  ⟨walk below cs, walk_append_of_depth dir below h⟩

/-- A walk that stays below its start and does not end there ends below it. -/
theorem below_walk {cs : List (Component ν)} {n : ℕ} (dir : List ν)
    (h : depth 0 cs = some (n + 1)) : Below dir (walk dir cs) := by
  obtain ⟨below, hwalk, hlen⟩ := walk_of_depth dir [] h
  rw [List.append_nil] at hwalk
  rw [hwalk]
  exact below_append (List.ne_nil_of_length_eq_add_one hlen)

/-! ### Components of a text -/

variable {α : Type} [DecidableEq α] {sep dot : α}

/-- The component that stands between two separators. -/
def component (dot : α) (text : List α) : Component (List α) :=
  if text = [] ∨ text = [dot] then .here
  else if text = [dot, dot] then .up
  else .down text

def components (sep dot : α) (text : List α) : List (Component (List α)) :=
  (text.splitOn sep).map (component dot)

theorem components_nil : components sep dot [] = [.here] := by
  simp [components, component]

theorem components_append (text text' : List α) :
    components sep dot (text ++ sep :: text') =
      components sep dot text ++ components sep dot text' := by
  rw [components, List.splitOn_append_cons_self, List.map_append]
  rfl

/-- What stands behind a directory with its separator is walked from that directory. -/
theorem walk_components_append (text text' : List α) (start : List (List α)) :
    walk start (components sep dot (text ++ sep :: text')) =
      walk (walk start (components sep dot (text ++ [sep]))) (components sep dot text') := by
  rw [components_append, components_append, components_nil, walk_append, walk_append]
  rfl

end Paths
