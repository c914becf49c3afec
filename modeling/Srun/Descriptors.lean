import Srun.Framework.FdTable
import Srun.Output

/-!
# Descriptors of a command

`Output::load`, `dup` and `bind` on the descriptor tables of the manager and of the command.
The command gets a copy of the manager's table in `clone`, when both streams are loaded; then
`dup` works on the copy and `bind` on the original.

`wired` says where this ends, for every table and every pair of modes. The command has the
write end of the pipe, or `/dev/null`, as its descriptor 1 or 2, and for the rest the
descriptors that the manager had before. The manager has no write end. So the end of a pipe
depends on the command and its descendants alone.
-/

namespace Srun

/-- The two captured streams. -/
inductive CaptureStream
  | out
  | err
  deriving DecidableEq

/-- The mode of a stream in a request. -/
def CaptureStream.mode : CaptureStream → Request → OutMode
  | out, r => r.outmode
  | err, r => r.errmode

/-- The open files: the ones that the manager has had before, and the ones that the capture
opens for a stream. -/
inductive OpenFile (α : Type)
  | inherited (a : α)
  | readEnd (s : CaptureStream)
  | writeEnd (s : CaptureStream)
  | devNull (s : CaptureStream)
  | redirect (s : CaptureStream)

variable {α : Type}

/-- `closefd`. -/
def closefd (t : FdTable α) (fd : Int) : FdTable α := if fd = -1 then t else t.close fd.toNat

namespace Output

/-- `Output::load` calls `pipe`: for a MSG stream unless the command is a backend, and for a
FILE stream always. -/
def loadsPipe (mode : OutMode) (backend : Bool) : Bool :=
  match mode with
  | .msg => !backend
  | .file => true
  | _ => false

/-- `Output::load` on the manager's table; `redirect_to` exists and `pipe` succeeds. -/
def loadFds (s : CaptureStream) (o : Output) (mode : OutMode) (path : String) (backend : Bool)
    (t : FdTable (OpenFile α)) : Output × FdTable (OpenFile α) :=
  let p := t.pipe (.readEnd s) (.writeEnd s)
  if loadsPipe mode backend then
    ((o.load mode path backend true (some (p.1.1, p.1.2))).1, p.2)
  else ((o.load mode path backend true none).1, t)

/-- `Output::dup` in the command, with `/dev/null` opened when there is no pipe. -/
def dup (s : CaptureStream) (o : Output) (fd : ℕ) (t : FdTable (OpenFile α)) :
    FdTable (OpenFile α) :=
  if o.pipefd0 ≠ -1 then
    let t := closefd t o.pipefd0
    -- `dup2` of -1 fails, which is not looked at
    closefd (if o.pipefd1 = -1 then t else t.dup2 o.pipefd1.toNat fd) o.pipefd1
  else
    let p := t.openFile (.devNull s)
    closefd (p.2.dup2 p.1 fd) p.1

/-- `Output::bind` in the manager; the redirect file is opened and `epoll_ctl` succeeds. -/
def bindFds (s : CaptureStream) (o : Output) (t : FdTable (OpenFile α)) :
    Output × FdTable (OpenFile α) :=
  if o.pipefd0 ≠ -1 then
    let p := if o.mode = .file then t.openFile (.redirect s) else (0, t)
    ((o.bind p.1 true).1, closefd p.2 o.pipefd1)
  else ((o.bind (-1) true).1, t)

/-- What the command is to write a stream to: its pipe if there is one, else `/dev/null`. -/
def target (s : CaptureStream) (mode : OutMode) (backend : Bool) : OpenFile α :=
  if loadsPipe mode backend then .writeEnd s else .devNull s

end Output

/-- Nobody who has one of the tables can write to the pipe of `s` any more. -/
def Eof (s : CaptureStream) (tables : List (FdTable (OpenFile α))) : Prop :=
  ∀ t ∈ tables, ∀ fd, t.file fd ≠ some (.writeEnd s)

/-! ### One stream -/

variable {s : CaptureStream} {o : Output} {t t' : FdTable (OpenFile α)} {mode : OutMode}
  {backend : Bool}

/-- A stream that has been loaded: `t` is the table before and `t'` after. -/
structure Loaded (s : CaptureStream) (mode : OutMode) (backend : Bool) (o : Output)
    (t t' : FdTable (OpenFile α)) : Prop where
  fds : Output.loadsPipe mode backend = false ∧ o.pipefd0 = -1 ∧ o.pipefd1 = -1 ∨
    Output.loadsPipe mode backend = true ∧ ∃ r w : ℕ, o.pipefd0 = r ∧ o.pipefd1 = w ∧ r ≠ w
  file : ∀ n : ℕ, t'.file n =
    if (n : Int) = o.pipefd1 then some (.writeEnd s)
    else if (n : Int) = o.pipefd0 then some (.readEnd s) else t.file n
  fresh : ∀ n : ℕ, (n : Int) = o.pipefd0 ∨ (n : Int) = o.pipefd1 → t.file n = none

/-- Without a pipe `load` keeps the descriptors that the object has, such as those of an earlier
command. -/
theorem loadFds_of_not_loadsPipe (s : CaptureStream) (o : Output) (path : String)
    (t : FdTable (OpenFile α)) (h : Output.loadsPipe mode backend = false) :
    Output.loadFds s o mode path backend t = ({ o with mode := mode, redirectTo := path }, t) := by
  have hload : o.load mode path backend true none =
      ({ o with mode := mode, redirectTo := path }, true) := by
    cases mode <;> cases backend <;> first | rfl | cases h
  simp only [Output.loadFds, h, hload, Bool.false_eq_true, if_false]

/-- With one it forgets them; they stay open. -/
theorem loadFds_of_loadsPipe (s : CaptureStream) (o : Output) (path : String)
    (t : FdTable (OpenFile α)) (h : Output.loadsPipe mode backend = true) :
    Output.loadFds s o mode path backend t =
      ({ o with
        mode := mode
        redirectTo := path
        pipefd0 := (t.pipe (.readEnd s) (.writeEnd s)).1.1
        pipefd1 := (t.pipe (.readEnd s) (.writeEnd s)).1.2 },
      (t.pipe (.readEnd s) (.writeEnd s)).2) := by
  have hload : ∀ r w : ℕ, o.load mode path backend true (some ((r : Int), (w : Int))) =
      ({ o with mode := mode, redirectTo := path, pipefd0 := r, pipefd1 := w }, true) := by
    intro r w
    cases mode <;> cases backend <;> first | rfl | cases h
  simp only [Output.loadFds, h, hload, if_true]

/-- `load` on an object without descriptors, such as a new one. -/
theorem loaded_loadFds (s : CaptureStream) {o : Output} (hfds : o.pipefd0 = -1 ∧ o.pipefd1 = -1)
    (mode : OutMode) (path : String) (backend : Bool) (t : FdTable (OpenFile α)) :
    Loaded s mode backend (Output.loadFds s o mode path backend t).1 t
      (Output.loadFds s o mode path backend t).2 := by
  obtain ⟨h0, h1⟩ := hfds
  cases hpipe : Output.loadsPipe mode backend with
  | false =>
    rw [loadFds_of_not_loadsPipe s o path t hpipe]
    refine ⟨Or.inl ⟨hpipe, h0, h1⟩, fun n => ?_, fun n hn => ?_⟩
    · rw [if_neg (by simp only; omega), if_neg (by simp only; omega)]
    · simp only at hn
      omega
  | true =>
    obtain ⟨hne, hr, hw⟩ := t.pipe_free (.readEnd s) (.writeEnd s)
    rw [loadFds_of_loadsPipe s o path t hpipe]
    refine ⟨Or.inr ⟨hpipe, _, _, rfl, rfl, hne⟩, fun n => ?_, fun n hn => ?_⟩
    · rw [FdTable.pipe_file]
      simp only [Nat.cast_inj]
    · simp only [Nat.cast_inj] at hn
      rcases hn with rfl | rfl
      · exact hr
      · exact hw

/-- What was open before is there, and no end of the pipe. -/
theorem Loaded.keeps (h : Loaded s mode backend o t t') {n : ℕ} (hn : t.file n ≠ none) :
    t'.file n = t.file n ∧ (n : Int) ≠ o.pipefd0 ∧ (n : Int) ≠ o.pipefd1 := by
  have h0 : (n : Int) ≠ o.pipefd0 := fun heq => hn (h.fresh n (Or.inl heq))
  have h1 : (n : Int) ≠ o.pipefd1 := fun heq => hn (h.fresh n (Or.inr heq))
  exact ⟨by rw [h.file, if_neg h1, if_neg h0], h0, h1⟩

/-- The ends of the pipe are open. -/
theorem Loaded.ends (h : Loaded s mode backend o t t') {n : ℕ}
    (hn : (n : Int) = o.pipefd0 ∨ (n : Int) = o.pipefd1) : t'.file n ≠ none := by
  rw [h.file]
  split
  · exact Option.some_ne_none _
  · next h1 =>
    rw [if_pos (hn.resolve_right h1)]
    exact Option.some_ne_none _

/-- A stream has a read end when it has a pipe. -/
theorem Loaded.pipefd0_iff (h : Loaded s mode backend o t t') {n : ℕ} :
    (n : Int) = o.pipefd0 ↔ Output.loadsPipe mode backend = true ∧ o.pipefd0 = n := by
  rcases h.fds with ⟨hmode, h0, -⟩ | ⟨hmode, r, w, h0, -, -⟩
  · rw [h0, hmode]
    refine iff_of_false (by omega) fun h => ?_
    cases h.1
  · rw [hmode]
    exact ⟨fun h => ⟨rfl, h.symm⟩, fun h => h.2.symm⟩

theorem Loaded.pipefd_ne (h : Loaded s mode backend o t t') {n : ℕ} (hn : (n : Int) = o.pipefd0) :
    (n : Int) ≠ o.pipefd1 := by
  rcases h.fds with ⟨-, h0, h1⟩ | ⟨-, r, w, h0, h1, hne⟩ <;> omega

/-- The table holds the two ends, and what it held before. No file is lost, since `pipe` takes
free numbers. -/
theorem Loaded.file_iff (h : Loaded s mode backend o t t') {n : ℕ} {f : OpenFile α} :
    t'.file n = some f ↔
      (n : Int) = o.pipefd1 ∧ f = .writeEnd s ∨ (n : Int) = o.pipefd0 ∧ f = .readEnd s ∨
        t.file n = some f := by
  rw [h.file]
  by_cases h1 : (n : Int) = o.pipefd1
  · simp only [h1, h.fresh n (Or.inr h1), if_true, Option.some_inj, true_and]
    have hne : o.pipefd1 ≠ o.pipefd0 := fun heq => h.pipefd_ne (h1.trans heq) h1
    simp [hne, eq_comm]
  · by_cases h0 : (n : Int) = o.pipefd0
    · have hne1 : o.pipefd0 ≠ o.pipefd1 := h0 ▸ h1
      simp only [if_neg h1, if_pos h0, h.fresh n (Or.inl h0), Option.some_inj]
      simp [hne1, h0, eq_comm]
    · simp [h1, h0]

/-- `Output::dup` lets `fd` refer to the target of the stream and closes the pipe otherwise. -/
theorem Loaded.dup_file (h : Loaded s mode backend o t t') (u : FdTable (OpenFile α)) (fd : ℕ)
    (hpipe : ∀ n : ℕ, (n : Int) = o.pipefd1 → u.file n = some (.writeEnd s))
    (hfd : (u.file fd).isSome = true) (hother : (fd : Int) ≠ o.pipefd0 ∧ (fd : Int) ≠ o.pipefd1)
    (n : ℕ) :
    (o.dup s fd u).file n =
      if n = fd then some (Output.target s mode backend)
      else if (n : Int) = o.pipefd0 ∨ (n : Int) = o.pipefd1 then none else u.file n := by
  rcases h.fds with ⟨hmode, h0, h1⟩ | ⟨hmode, r, w, h0, h1, hne⟩
  -- no pipe: `/dev/null` comes to a free number and from there to `fd`
  · have hfree : u.free ≠ fd := by
      rintro rfl
      rw [u.free_file] at hfd
      cases hfd
    have hopen : (u.openFile (OpenFile.devNull s)).2.file u.free = some (.devNull s) := by
      rw [FdTable.openFile_file, if_pos rfl]
    have hopen1 : (u.openFile (OpenFile.devNull s)).1 = u.free := rfl
    have hnat : ((u.free : ℕ) : Int) ≠ -1 := by omega
    rw [Output.dup, if_neg (not_not.mpr h0)]
    simp only [closefd, hopen1, if_neg hnat, Int.toNat_natCast, FdTable.close_file,
      FdTable.dup2_file hopen hfree, FdTable.openFile_file, h0, h1, Output.target, hmode]
    by_cases hn : n = u.free
    · subst hn
      simp [hfree, u.free_file]
    · have hneg : ¬ (n : Int) = -1 := by omega
      simp [hn, hneg]
  -- a pipe: its read end is closed, and its write end comes to `fd`
  · have hwrite : (u.close r).file w = some (.writeEnd s) := by
      rw [FdTable.close_file, if_neg (Ne.symm hne), hpipe w h1.symm]
    have hr : ((r : ℕ) : Int) ≠ -1 := by omega
    have hw : ((w : ℕ) : Int) ≠ -1 := by omega
    rw [h0, h1] at hother
    have hfdw : w ≠ fd := fun heq => hother.2 (by rw [heq])
    have hfdr : fd ≠ r := fun heq => hother.1 (by rw [heq])
    rw [Output.dup, if_pos (by rw [h0]; exact hr)]
    simp only [closefd, h0, h1, if_neg hr, if_neg hw, Int.toNat_natCast, FdTable.close_file,
      FdTable.dup2_file hwrite hfdw, Nat.cast_inj, Output.target, hmode]
    by_cases hnw : n = w
    · simp [hnw, hfdw]
    · by_cases hnr : n = r
      · simp [hnr, hne, hfdr.symm]
      · simp [hnw, hnr]

/-- `Output::bind` closes the write end and may open the redirect file. -/
theorem Loaded.bind_file (h : Loaded s mode backend o t t') {u : FdTable (OpenFile α)}
    {f : OpenFile α} (hf : f ≠ .redirect s) (n : ℕ) :
    (o.bindFds s u).2.file n = some f ↔ u.file n = some f ∧ (n : Int) ≠ o.pipefd1 := by
  rcases h.fds with ⟨-, h0, h1⟩ | ⟨-, r, w, h0, h1, -⟩
  · rw [Output.bindFds, if_neg (not_not.mpr h0), h1]
    exact (and_iff_left (by omega)).symm
  · have hr : ((r : ℕ) : Int) ≠ -1 := by omega
    have hw : ((w : ℕ) : Int) ≠ -1 := by omega
    -- the redirect file takes a free number, which is no end of the pipe
    have hopen : ∀ v : FdTable (OpenFile α), v = (if o.mode = .file then
          u.openFile (.redirect s) else (0, u)).2 → (v.file n = some f ↔ u.file n = some f) := by
      rintro v rfl
      split
      · rw [FdTable.openFile_file]
        split
        · next hn =>
          rw [hn, u.free_file, Option.some_inj]
          exact iff_of_false (fun heq => hf heq.symm) (fun hnone => by cases hnone)
        · rfl
      · rfl
    rw [Output.bindFds, if_pos (by rw [h0]; exact hr)]
    simp only [closefd, h1, if_neg hw, Int.toNat_natCast, FdTable.close_file, Nat.cast_inj, ne_eq]
    by_cases hn : n = w
    · simp [hn]
    · simp only [hn, if_false, not_false_eq_true, and_true]
      exact hopen _ rfl

/-! ### Both streams -/

/-- Both streams have been loaded by a manager whose standard descriptors are open. -/
structure BothLoaded (t : FdTable α) (outmode errmode : OutMode) (backend : Bool)
    (out err : Output) (t₁ t₂ : FdTable (OpenFile α)) : Prop where
  standard : ∀ fd < 3, (t.file fd).isSome = true
  out : Loaded .out outmode backend out (t.map .inherited) t₁
  err : Loaded .err errmode backend err t₁ t₂

section BothLoaded

variable {t : FdTable α} {outmode errmode : OutMode} {out err : Output}
  {t₁ t₂ : FdTable (OpenFile α)} {n : ℕ}

/-- The manager had no pipe of a command before. -/
theorem map_inherited_ne {f : OpenFile α} (hf : ∀ a, f ≠ .inherited a) :
    (t.map OpenFile.inherited).file n ≠ some f := by
  intro hfile
  obtain ⟨a, -, h⟩ := Option.map_eq_some_iff.mp hfile
  exact hf a h.symm

namespace BothLoaded

variable (h : BothLoaded t outmode errmode backend out err t₁ t₂)

include h

/-- The standard descriptors are open and are no ends of the first pipe. -/
theorem std_out {fd : ℕ} (hfd : fd < 3) :
    t₁.file fd ≠ none ∧ (fd : Int) ≠ out.pipefd0 ∧ (fd : Int) ≠ out.pipefd1 := by
  have hopen : (t.map OpenFile.inherited).file fd ≠ none := by
    rw [FdTable.map_file, ne_eq, Option.map_eq_none_iff]
    exact Option.isSome_iff_ne_none.mp (h.standard fd hfd)
  obtain ⟨hkept, hends⟩ := h.out.keeps hopen
  exact ⟨hkept ▸ hopen, hends⟩

/-- They are no ends of the second one either. -/
theorem std_err {fd : ℕ} (hfd : fd < 3) :
    t₂.file fd ≠ none ∧ (fd : Int) ≠ err.pipefd0 ∧ (fd : Int) ≠ err.pipefd1 := by
  obtain ⟨hkept, hends⟩ := h.err.keeps (h.std_out hfd).1
  exact ⟨hkept ▸ (h.std_out hfd).1, hends⟩

/-- The ends of the one pipe are none of the other. -/
theorem apart (hn : (n : Int) = out.pipefd0 ∨ (n : Int) = out.pipefd1) :
    t₂.file n = t₁.file n ∧ (n : Int) ≠ err.pipefd0 ∧ (n : Int) ≠ err.pipefd1 :=
  h.err.keeps (h.out.ends hn)

/-- The command's table after `dup(1)` of the standard output. -/
theorem dup_out (n : ℕ) :
    (out.dup .out 1 t₂).file n =
      if n = 1 then some (Output.target .out outmode backend)
      else if (n : Int) = out.pipefd0 ∨ (n : Int) = out.pipefd1 then none else t₂.file n := by
  refine h.out.dup_file t₂ 1 (fun n hn => ?_) ?_ (h.std_out (by decide)).2 n
  · rw [(h.apart (Or.inr hn)).1, h.out.file, if_pos hn]
  · exact Option.isSome_iff_ne_none.mpr (h.std_err (by decide)).1

/-- `dup(1)` leaves what is not its own as it is. -/
theorem dup_out_other (h1 : n ≠ 1) (hn : (n : Int) ≠ out.pipefd0 ∧ (n : Int) ≠ out.pipefd1) :
    (out.dup .out 1 t₂).file n = t₂.file n := by
  rw [h.dup_out, if_neg h1, if_neg (not_or.mpr hn)]

/-- The command's table after `dup(2)` of the standard error. -/
theorem dup_err (n : ℕ) :
    (err.dup .err 2 (out.dup .out 1 t₂)).file n =
      if n = 2 then some (Output.target .err errmode backend)
      else if (n : Int) = err.pipefd0 ∨ (n : Int) = err.pipefd1 then none
      else (out.dup .out 1 t₂).file n := by
  refine h.err.dup_file (out.dup .out 1 t₂) 2 (fun n hn => ?_) ?_ (h.std_err (by decide)).2 n
  · -- the write end of the second pipe is still there after `dup(1)`
    have h1 : n ≠ 1 := by
      rintro rfl
      exact (h.std_err (by decide)).2.2 hn
    have hout : (n : Int) ≠ out.pipefd0 ∧ (n : Int) ≠ out.pipefd1 :=
      not_or.mp fun hor => (h.apart hor).2.2 hn
    rw [h.dup_out_other h1 hout, h.err.file, if_pos hn]
  · rw [h.dup_out_other (by decide) (h.std_out (by decide)).2]
    exact Option.isSome_iff_ne_none.mpr (h.std_err (by decide)).1

/-- Where an end of a pipe was, nothing had been before. -/
theorem inherited_of_end
    (hn : ((n : Int) = out.pipefd0 ∨ (n : Int) = out.pipefd1) ∨
      (n : Int) = err.pipefd0 ∨ (n : Int) = err.pipefd1) :
    (t.map OpenFile.inherited).file n = none := by
  rcases hn with hout | herr
  · exact h.out.fresh n hout
  · -- had it been open, the first `load` would have left it open for the second
    by_contra hopen
    have hkept := (h.out.keeps hopen).1
    rw [h.err.fresh n herr] at hkept
    exact hopen hkept.symm

/-- What the manager had before is what both `load` have left. -/
theorem inherited_of_other (hout : ¬ ((n : Int) = out.pipefd0 ∨ (n : Int) = out.pipefd1))
    (herr : ¬ ((n : Int) = err.pipefd0 ∨ (n : Int) = err.pipefd1)) :
    t₂.file n = (t.map OpenFile.inherited).file n := by
  rw [h.err.file, if_neg fun h => herr (Or.inr h), if_neg fun h => herr (Or.inl h), h.out.file,
    if_neg fun h => hout (Or.inr h), if_neg fun h => hout (Or.inl h)]

theorem child_file (n : ℕ) :
    (err.dup .err 2 (out.dup .out 1 t₂)).file n =
      if n = 1 then some (Output.target .out outmode backend)
      else if n = 2 then some (Output.target .err errmode backend)
      else (t.file n).map .inherited := by
  rw [h.dup_err, h.dup_out]
  by_cases h1 : n = 1
  · have hends : ¬ ((1 : ℕ) = (err.pipefd0 : Int) ∨ (1 : ℕ) = err.pipefd1) :=
      not_or.mpr (h.std_err (by decide)).2
    rw [h1, if_neg (by decide), if_neg hends, if_pos rfl, if_pos rfl]
  by_cases h2 : n = 2
  · rw [if_pos h2, if_neg h1, if_pos h2]
  rw [if_neg h2, if_neg h1, if_neg h1, if_neg h2]
  show _ = (t.map OpenFile.inherited).file n
  -- what `dup` closes are the ends of the pipes, where the manager had nothing
  by_cases herr : (n : Int) = err.pipefd0 ∨ (n : Int) = err.pipefd1
  · rw [if_pos herr, h.inherited_of_end (Or.inr herr)]
  by_cases hout : (n : Int) = out.pipefd0 ∨ (n : Int) = out.pipefd1
  · rw [if_neg herr, if_pos hout, h.inherited_of_end (Or.inl hout)]
  · rw [if_neg herr, if_neg hout, h.inherited_of_other hout herr]

/-- What the manager has after the two `bind`, redirect files apart: the two write ends are gone
and nothing else. -/
theorem manager_file {f : OpenFile α} (hf : ∀ s, f ≠ .redirect s) :
    (err.bindFds .err (out.bindFds .out t₂).2).2.file n = some f ↔
      ((n : Int) = err.pipefd1 ∧ f = .writeEnd .err ∨ (n : Int) = err.pipefd0 ∧ f = .readEnd .err ∨
        (n : Int) = out.pipefd1 ∧ f = .writeEnd .out ∨ (n : Int) = out.pipefd0 ∧ f = .readEnd .out ∨
          (t.map OpenFile.inherited).file n = some f) ∧
        (n : Int) ≠ out.pipefd1 ∧ (n : Int) ≠ err.pipefd1 := by
  rw [h.err.bind_file (hf _), h.out.bind_file (hf _), and_assoc, h.err.file_iff, h.out.file_iff]

/-- The manager keeps no write end, neither of this stream nor of the other. -/
theorem manager_writeEnd (s : CaptureStream) :
    (err.bindFds .err (out.bindFds .out t₂).2).2.file n ≠ some (.writeEnd s) := by
  rw [ne_eq, h.manager_file (fun _ heq => by cases heq)]
  rintro ⟨⟨hn, -⟩ | ⟨-, heq⟩ | ⟨hn, -⟩ | ⟨-, heq⟩ | hfile, hout, herr⟩
  · exact herr hn
  · cases heq
  · exact hout hn
  · cases heq
  · exact map_inherited_ne (fun _ heq => by cases heq) hfile

theorem manager_readOut :
    (err.bindFds .err (out.bindFds .out t₂).2).2.file n = some (.readEnd .out) ↔
      Output.loadsPipe outmode backend = true ∧ out.pipefd0 = n := by
  rw [h.manager_file (fun _ heq => by cases heq), ← h.out.pipefd0_iff]
  constructor
  · rintro ⟨⟨-, heq⟩ | ⟨-, heq⟩ | ⟨-, heq⟩ | ⟨hn, -⟩ | hfile, -, -⟩
    · cases heq
    · cases heq
    · cases heq
    · exact hn
    · exact absurd hfile (map_inherited_ne fun _ heq => by cases heq)
  · intro hn
    exact ⟨Or.inr (Or.inr (Or.inr (Or.inl ⟨hn, rfl⟩))), h.out.pipefd_ne hn,
      (h.apart (Or.inl hn)).2.2⟩

theorem manager_readErr :
    (err.bindFds .err (out.bindFds .out t₂).2).2.file n = some (.readEnd .err) ↔
      Output.loadsPipe errmode backend = true ∧ err.pipefd0 = n := by
  rw [h.manager_file (fun _ heq => by cases heq), ← h.err.pipefd0_iff]
  constructor
  · rintro ⟨⟨-, heq⟩ | ⟨hn, -⟩ | ⟨-, heq⟩ | ⟨-, heq⟩ | hfile, -, -⟩
    · cases heq
    · exact hn
    · cases heq
    · cases heq
    · exact absurd hfile (map_inherited_ne fun _ heq => by cases heq)
  · intro hn
    exact ⟨Or.inr (Or.inl ⟨hn, rfl⟩), fun hout => (h.apart (Or.inr hout)).2.1 hn,
      h.err.pipefd_ne hn⟩

end BothLoaded

end BothLoaded

/-- The tables when both streams have been set up: `t` is the table of a manager that has
loaded nothing, and `out` and `err` are its objects. -/
structure Wired (t : FdTable α) (outmode errmode : OutMode) (backend : Bool) (out err : Output)
    (child manager : FdTable (OpenFile α)) : Prop where
  child : ∀ n, child.file n =
    if n = 1 then some (Output.target .out outmode backend)
    else if n = 2 then some (Output.target .err errmode backend)
    else (t.file n).map .inherited
  writeEnd : ∀ n s, manager.file n ≠ some (.writeEnd s)
  readOut : ∀ n : ℕ, manager.file n = some (.readEnd .out) ↔
    Output.loadsPipe outmode backend = true ∧ out.pipefd0 = n
  readErr : ∀ n : ℕ, manager.file n = some (.readEnd .err) ↔
    Output.loadsPipe errmode backend = true ∧ err.pipefd0 = n
  eof : ∀ s tables, Eof s (manager :: tables) ↔ Eof s tables

/-- **Descriptor wiring.** After `out.load` and `err.load` in the manager, `dup(1)` and
`dup(2)` in the command, and the two `bind` in the manager. -/
theorem wired (t : FdTable α) (hopen : ∀ fd < 3, (t.file fd).isSome = true)
    (outmode errmode : OutMode) (outfile errfile : String) (backend : Bool) {out err : Output}
    {t₁ t₂ : FdTable (OpenFile α)}
    (hload : Output.loadFds .out {} outmode outfile backend (t.map .inherited) = (out, t₁))
    (hload' : Output.loadFds .err {} errmode errfile backend t₁ = (err, t₂)) :
    Wired t outmode errmode backend out err (err.dup .err 2 (out.dup .out 1 t₂))
      (err.bindFds .err (out.bindFds .out t₂).2).2 := by
  have hout := loaded_loadFds .out (o := {}) ⟨rfl, rfl⟩ outmode outfile backend
    (t.map OpenFile.inherited)
  rw [hload] at hout
  have herr := loaded_loadFds .err (o := {}) ⟨rfl, rfl⟩ errmode errfile backend t₁
  rw [hload'] at herr
  have hboth : BothLoaded t outmode errmode backend out err t₁ t₂ := ⟨hopen, hout, herr⟩
  refine ⟨hboth.child_file, fun n s => hboth.manager_writeEnd s, fun n => hboth.manager_readOut,
    fun n => hboth.manager_readErr, fun s tables => ?_⟩
  -- the manager's own table takes no part in the end of a pipe
  exact List.forall_mem_cons.trans (and_iff_right fun fd => hboth.manager_writeEnd s)

/-! ### A manager that has had a command before -/

section

variable {fd n : ℕ} {f : OpenFile α}

theorem closefd_file {t : FdTable α} {fd : Int} {f : α} (h : (closefd t fd).file n = some f) :
    t.file n = some f ∧ (n : Int) ≠ fd := by
  unfold closefd at h
  split at h
  · next heq => exact ⟨h, by omega⟩
  · rw [FdTable.close_file] at h
    split at h
    · cases h
    · next hne => exact ⟨h, by omega⟩

/-- Whatever descriptors the object has, `dup` gives the command no other one than `fd`, and
closes the ends of the pipe. -/
theorem dup_file_of_ne (hn : n ≠ fd) (h : (o.dup s fd t).file n = some f) :
    t.file n = some f ∧ (o.pipefd0 ≠ -1 → (n : Int) ≠ o.pipefd0 ∧ (n : Int) ≠ o.pipefd1) := by
  unfold Output.dup at h
  split at h
  · obtain ⟨h, hne1⟩ := closefd_file h
    have hdup : (closefd t o.pipefd0).file n = some f := by
      split at h
      · exact h
      · rwa [FdTable.dup2_file_of_ne _ _ hn] at h
    obtain ⟨h, hne0⟩ := closefd_file hdup
    exact ⟨h, fun _ => ⟨hne0, hne1⟩⟩
  · next hpipe =>
    -- `/dev/null` has been opened on a free number
    obtain ⟨h, hfree⟩ := closefd_file h
    rw [FdTable.dup2_file_of_ne _ _ hn, FdTable.openFile_file] at h
    split at h
    · next heq => exact absurd (congrArg Nat.cast heq) hfree
    · exact ⟨h, fun hno => absurd hno hpipe⟩

/-- What `load` opens are the ends that the object has afterwards, and which `dup` closes in the
command. -/
theorem loadFds_file {path : String}
    (h : (Output.loadFds s o mode path backend t).2.file n = some f) :
    t.file n = some f ∨ (Output.loadFds s o mode path backend t).1.pipefd0 ≠ -1 ∧
      ((n : Int) = (Output.loadFds s o mode path backend t).1.pipefd0 ∨
        (n : Int) = (Output.loadFds s o mode path backend t).1.pipefd1) := by
  cases hpipe : Output.loadsPipe mode backend with
  | false =>
    rw [loadFds_of_not_loadsPipe s o path t hpipe] at h
    exact Or.inl h
  | true =>
    rw [loadFds_of_loadsPipe s o path t hpipe, FdTable.pipe_file] at h
    rw [loadFds_of_loadsPipe s o path t hpipe]
    simp only [Nat.cast_inj]
    split at h
    · next hw => exact Or.inr ⟨by omega, Or.inr hw⟩
    · split at h
      · next hr => exact Or.inr ⟨by omega, Or.inl hr⟩
      · exact Or.inl h

/-- **What is inherited.** Whatever the objects have from an earlier command, beside 1 and 2 a
command has only what the manager had before both `load`. -/
theorem inherited_of_child {out err : Output} {outmode errmode : OutMode} {outfile errfile : String}
    (h1 : n ≠ 1) (h2 : n ≠ 2)
    (h : ((Output.loadFds .err err errmode errfile backend
        (Output.loadFds .out out outmode outfile backend t).2).1.dup .err 2
      ((Output.loadFds .out out outmode outfile backend t).1.dup .out 1
        (Output.loadFds .err err errmode errfile backend
          (Output.loadFds .out out outmode outfile backend t).2).2)).file n = some f) :
    t.file n = some f := by
  obtain ⟨h, herr⟩ := dup_file_of_ne h2 h
  obtain ⟨h, hout⟩ := dup_file_of_ne h1 h
  rcases loadFds_file h with h | ⟨hpipe, hend⟩
  · rcases loadFds_file h with h | ⟨hpipe, hend⟩
    · exact h
    · exact absurd hend (not_or.mpr (hout hpipe))
  · exact absurd hend (not_or.mpr (herr hpipe))

end

/-- A manager with the standard descriptors, a hole at 3 and a connection on 4. -/
def holeTable : FdTable ℕ where
  file n := if n < 3 ∨ n = 4 then some n else none
  finite := ⟨5, fun m hm => if_neg (by omega)⟩

/-- Both streams captured: the command prints to the two pipes. -/
theorem wired_hole :
    ∃ child manager : FdTable (OpenFile ℕ), child.file 1 = some (.writeEnd .out) ∧
      child.file 2 = some (.writeEnd .err) ∧ child.file 3 = none ∧
      ∀ n s, manager.file n ≠ some (.writeEnd s) := by
  have hopen : ∀ fd < 3, (holeTable.file fd).isSome = true := by
    intro fd hfd
    show (if fd < 3 ∨ fd = 4 then some fd else none).isSome = true
    rw [if_pos (Or.inl hfd)]
    rfl
  have h := wired holeTable hopen .msg .msg "" "" false rfl rfl
  exact ⟨_, _, h.child 1, h.child 2, h.child 3, h.writeEnd⟩

end Srun
