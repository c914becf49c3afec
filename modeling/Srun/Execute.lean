import Srun.Output
import Srun.Request

/-!
# The child between clone and command

`execute` of `manager.cpp`, which runs in the cloned process until `execv` replaces
its image. It works on copies of the manager's variables, so nothing the manager
does after the clone reaches it.
-/

namespace Srun

/-- `Output::dup`: the descriptor that is duplicated, `none` when it is `/dev/null`. -/
def Output.dupSource (o : Output) : Option Int :=
  if o.pipefd0 ≠ -1 then some o.pipefd1 else none

/-- The name and the value of an entry of `request.envs`, split at the first `=`, as `setenv`
sees them. -/
def splitEnv (s : String) : Option (String × String) :=
  match s.toList.dropWhile (· ≠ '=') with
  | [] => none
  | _ :: value =>
    some (cstr (String.ofList (s.toList.takeWhile (· ≠ '='))), cstr (String.ofList value))

/-- Program points of `execute`. -/
inductive ChildPc
  | dupOut
  | dupErr
  | getpwnam
  | setgid (gid uid : ℕ)
  | setuid (uid : ℕ)
  | chdir
  | prctl
  | nice
  /-- The loop over `request.envs`, with the entries still to come. -/
  | setenv (envs : List String)
  | execv
  /-- `execv` has been called. -/
  | loading
  /-- The command runs. -/
  | command
  /-- After `exit(-1)` or `abort()`. -/
  | ended
  deriving DecidableEq

/-- `execute` takes `n` steps to a point before `execv`, for a request with so many entries
in `envs`. -/
def ChildPc.Taken (envs n : ℕ) : ChildPc → Prop
  | .dupOut => n = 0
  | .dupErr => n = 1
  | .getpwnam => n = 2
  | .setgid _ _ => n = 3
  | .setuid _ => n = 4
  | .chdir => n = 5
  | .prctl => n = 6
  | .nice => n = 7
  | .setenv rest => n + rest.length = 8 + envs
  | .execv => n = 9 + envs
  | .loading | .command | .ended => True

/-- The cloned process. -/
structure Child where
  request : Request := {}
  out : Output := {}
  err : Output := {}
  pc : ChildPc := .ended

/-- What the child does in one step. The texts are those that the C functions see. -/
inductive ChildLabel
  | tau
  | dup (fd : ℕ) (source : Option Int)
  /-- The group and the user id of `pw`. -/
  | getpwnam (user : String) (pw : Option (ℕ × ℕ))
  | setgid (gid : ℕ) (ok : Bool)
  | setuid (uid : ℕ) (ok : Bool)
  | chdir (path : String) (ok : Bool)
  | prctl
  | nice (inc : Int32)
  | setenv (name value : String)
  | execv (argv : List String)
  /-- The kernel has replaced the image, or `execv` has returned. -/
  | loaded (ok : Bool)
  deriving DecidableEq

namespace Child

def goto (c : Child) (pc : ChildPc) : Child := { c with pc := pc }

/-- `request.user()`, or `nobody`. -/
def user (c : Child) : String := if c.request.user = "" then "nobody" else c.request.user

/-- Go on, or leave through the handler of `execute`. -/
def proceed (c : Child) (ok : Bool) (pc : ChildPc) : Child := c.goto (if ok then pc else .ended)

/-- `execute`. -/
def step (c : Child) (l : ChildLabel) : Option Child :=
  match c.pc, l with
  | .dupOut, .dup 1 source => if source = c.out.dupSource then some (c.goto .dupErr) else none
  | .dupErr, .dup 2 source => if source = c.err.dupSource then some (c.goto .getpwnam) else none
  | .getpwnam, .getpwnam user pw =>
    -- `set_user` writes the copy of the request that the child has
    if user = cstr c.user then
      match pw with
      | none => some (c.goto .ended)
      | some (gid, uid) =>
        some { c with request.user := c.user, pc := .setgid gid uid }
    else none
  -- the group first: without root's rights it could not be set any more
  | .setgid gid uid, .setgid g ok => if g = gid then some (c.proceed ok (.setuid uid)) else none
  | .setuid uid, .setuid u ok => if u = uid then some (c.proceed ok .chdir) else none
  | .chdir, .tau => if c.request.chroot = "" then some (c.goto .prctl) else none
  -- `chroot` of the request is only a `chdir`
  | .chdir, .chdir path ok =>
    if c.request.chroot ≠ "" ∧ path = cstr c.request.chroot then some (c.proceed ok .prctl)
    else none
  | .prctl, .prctl => some (c.goto .nice)
  | .nice, .nice inc =>
    -- neither `prctl` nor `nice` is looked at for an error
    if inc = c.request.nice then some (c.goto (.setenv c.request.envs)) else none
  | .setenv [], .tau => some (c.goto .execv)
  | .setenv (env :: envs), .tau =>
    -- an entry without `=` is skipped
    if splitEnv env = none then some (c.goto (.setenv envs)) else none
  | .setenv (env :: envs), .setenv name value =>
    if splitEnv env = some (name, value) then some (c.goto (.setenv envs)) else none
  | .execv, .execv argv =>
    if argv = c.request.args.map cstr then some (c.goto .loading) else none
  -- an `execv` that returns is followed by `abort`
  | .loading, .loaded ok => some (c.proceed ok .command)
  | _, _ => none

/-- The child has called `execv`. -/
def reached (c : Child) : Bool := c.pc = .loading || c.pc = .command

variable {c c' : Child} {l : ChildLabel}

/-- The steps of `execute`, by name. -/
inductive Step (c : Child) : ChildLabel → Child → Prop
  | dupOut (hpc : c.pc = .dupOut) : Step c (.dup 1 c.out.dupSource) (c.goto .dupErr)
  | dupErr (hpc : c.pc = .dupErr) : Step c (.dup 2 c.err.dupSource) (c.goto .getpwnam)
  | unknown (hpc : c.pc = .getpwnam) : Step c (.getpwnam (cstr c.user) none) (c.goto .ended)
  | known (gid uid : ℕ) (hpc : c.pc = .getpwnam) :
      Step c (.getpwnam (cstr c.user) (some (gid, uid)))
        { c with request.user := c.user, pc := .setgid gid uid }
  | setgid {gid uid : ℕ} (ok : Bool) (hpc : c.pc = .setgid gid uid) :
      Step c (.setgid gid ok) (c.proceed ok (.setuid uid))
  | setuid {uid : ℕ} (ok : Bool) (hpc : c.pc = .setuid uid) :
      Step c (.setuid uid ok) (c.proceed ok .chdir)
  | stay (hpc : c.pc = .chdir) (h : c.request.chroot = "") : Step c .tau (c.goto .prctl)
  | chdir (ok : Bool) (hpc : c.pc = .chdir) (h : c.request.chroot ≠ "") :
      Step c (.chdir (cstr c.request.chroot) ok) (c.proceed ok .prctl)
  | prctl (hpc : c.pc = .prctl) : Step c .prctl (c.goto .nice)
  | nice (hpc : c.pc = .nice) : Step c (.nice c.request.nice) (c.goto (.setenv c.request.envs))
  | setenvDone (hpc : c.pc = .setenv []) : Step c .tau (c.goto .execv)
  | setenvSkip {env : String} {envs : List String} (hpc : c.pc = .setenv (env :: envs))
      (h : splitEnv env = none) : Step c .tau (c.goto (.setenv envs))
  | setenv {env name value : String} {envs : List String} (hpc : c.pc = .setenv (env :: envs))
      (h : splitEnv env = some (name, value)) :
      Step c (.setenv name value) (c.goto (.setenv envs))
  | execv (hpc : c.pc = .execv) :
      Step c (.execv (c.request.args.map cstr)) (c.goto .loading)
  | loaded (ok : Bool) (hpc : c.pc = .loading) : Step c (.loaded ok) (c.proceed ok .command)

/-- The list is complete. -/
theorem step_cases (h : c.step l = some c') : Step c l c' := by
  -- by the point at which `execute` stands, and then by what it does there
  obtain ⟨request, out, err, pc⟩ := c
  cases pc with
  | dupOut =>
    -- only descriptor 1, the standard output, is replaced here
    cases l with
    | dup fd source =>
      rcases fd with _ | _ | fd
      · cases h
      · change (if source = _ then some _ else none) = some c' at h
        split at h
        · next heq =>
          subst heq
          cases h
          exact .dupOut rfl
        · cases h
      · cases h
    | _ => cases h
  | dupErr =>
    cases l with
    | dup fd source =>
      -- and only descriptor 2 here
      rcases fd with _ | _ | _ | fd
      · cases h
      · cases h
      · change (if source = _ then some _ else none) = some c' at h
        split at h
        · next heq =>
          subst heq
          cases h
          exact .dupErr rfl
        · cases h
      · cases h
    | _ => cases h
  | getpwnam =>
    cases l with
    | getpwnam user pw =>
      change (if user = _ then _ else none) = some c' at h
      split at h
      · next heq =>
        subst heq
        cases pw with
        | none => cases h; exact .unknown rfl
        | some pw => cases h; exact .known pw.1 pw.2 rfl
      · cases h
    | _ => cases h
  | setgid gid uid =>
    cases l with
    | setgid g ok =>
      obtain ⟨rfl, h⟩ := Option.ite_none_right_eq_some.mp h
      cases h
      exact .setgid ok rfl
    | _ => cases h
  | setuid uid =>
    cases l with
    | setuid u ok =>
      obtain ⟨rfl, h⟩ := Option.ite_none_right_eq_some.mp h
      cases h
      exact .setuid ok rfl
    | _ => cases h
  | chdir =>
    cases l with
    | tau =>
      obtain ⟨hroot, h⟩ := Option.ite_none_right_eq_some.mp h
      cases h
      exact .stay rfl hroot
    | chdir path ok =>
      change (if _ ∧ path = _ then some _ else none) = some c' at h
      split at h
      · next heq =>
        obtain ⟨hroot, rfl⟩ := heq
        cases h
        exact .chdir ok rfl hroot
      · cases h
    | _ => cases h
  | prctl =>
    cases l with
    | prctl => cases h; exact .prctl rfl
    | _ => cases h
  | nice =>
    cases l with
    | nice inc =>
      change (if inc = _ then some _ else none) = some c' at h
      split at h
      · next heq =>
        subst heq
        cases h
        exact .nice rfl
      · cases h
    | _ => cases h
  | setenv envs =>
    cases envs with
    | nil =>
      cases l with
      | tau => cases h; exact .setenvDone rfl
      | _ => cases h
    | cons env envs =>
      cases l with
      | tau =>
        obtain ⟨hskip, h⟩ := Option.ite_none_right_eq_some.mp h
        cases h
        exact .setenvSkip rfl hskip
      | setenv name value =>
        obtain ⟨hset, h⟩ := Option.ite_none_right_eq_some.mp h
        cases h
        exact .setenv rfl hset
      | _ => cases h
  | execv =>
    cases l with
    | execv argv =>
      change (if argv = _ then some _ else none) = some c' at h
      split at h
      · next heq =>
        subst heq
        cases h
        exact .execv rfl
      · cases h
    | _ => cases h
  | loading =>
    cases l with
    | loaded ok => cases h; exact .loaded ok rfl
    | _ => cases h
  | command => cases h
  | ended => cases h

/-- The steps by name are steps. -/
theorem Step.step_eq (h : Step c l c') : c.step l = some c' := by
  unfold step
  cases h with
  | dupOut hpc | dupErr hpc | setgid ok hpc | setuid ok hpc | nice hpc | execv hpc =>
    rw [hpc]
    exact if_pos rfl
  | unknown hpc | known gid uid hpc =>
    rw [hpc]
    exact if_pos rfl
  | stay hpc h | setenvSkip hpc h | setenv hpc h =>
    rw [hpc]
    exact if_pos h
  | chdir ok hpc h =>
    rw [hpc]
    exact if_pos ⟨h, rfl⟩
  | prctl hpc | setenvDone hpc | loaded ok hpc => rw [hpc]

/-- `execute` changes nothing of its request but the user. -/
theorem step_request (h : c.step l = some c') :
    ∃ user, c'.request = { c.request with user := user } := by
  cases step_cases h with
  | known => exact ⟨c.user, rfl⟩
  | _ => exact ⟨c.request.user, rfl⟩

/-- Only the call of `execv` reaches it. -/
theorem reached_of_step (h : c.step l = some c') (hr : c'.reached = true) :
    c.reached = true ∨ ∃ argv, l = .execv argv := by
  cases step_cases h with
  | execv => exact Or.inr ⟨_, rfl⟩
  | loaded ok hpc => exact Or.inl (by simp [reached, hpc])
  -- a call that fails ends the child, one that succeeds leads to the next call
  | setgid ok | setuid ok | chdir ok => cases ok <;> cases hr
  | _ => cases hr

/-! ### How far it is to `execv` -/

/-- The number of steps of `execute` before the call of `execv`. -/
def distance (c : Child) : ℕ := 9 + c.request.envs.length

/-- The child has taken `n` steps. -/
def Taken (c : Child) (n : ℕ) : Prop := c.pc.Taken c.request.envs.length n

/-- **One step.** The way to `execv` has no branches but the ones that end it. -/
theorem Taken.step {n : ℕ} (hn : c.Taken n) (h : c.step l = some c') : c'.Taken (n + 1) := by
  rw [Taken] at hn
  cases step_cases h with
  | setgid ok hpc | setuid ok hpc | chdir ok hpc =>
    rw [hpc] at hn
    cases ok with
    | false => exact trivial
    | true => exact congrArg (· + 1) hn
  | setenvDone hpc | setenvSkip hpc | setenv hpc =>
    rw [hpc, ChildPc.Taken] at hn
    simp only [List.length_nil, List.length_cons] at hn
    simp only [Taken, goto, ChildPc.Taken]
    omega
  | nice hpc =>
    rw [hpc] at hn
    subst hn
    rfl
  | loaded ok => cases ok <;> exact trivial
  | unknown | execv => exact trivial
  | dupOut hpc | dupErr hpc | known gid uid hpc | stay hpc | prctl hpc =>
    rw [hpc] at hn
    exact congrArg (· + 1) hn

/-- Before `execv` fewer steps have been taken than it is away. -/
theorem Taken.lt_distance {n : ℕ} (hn : c.Taken n) (h : c.step l = some c')
    (hr : c'.reached = false) (hr' : c.reached = false) : n < c.distance := by
  rw [Taken] at hn
  unfold distance
  cases step_cases h with
  | execv hpc => cases hr
  | loaded ok hpc => simp [reached, hpc] at hr'
  | setenvDone hpc | setenvSkip hpc | setenv hpc =>
    rw [hpc, ChildPc.Taken] at hn
    simp only [List.length_nil, List.length_cons] at hn
    omega
  | _ =>
    rw [‹c.pc = _›, ChildPc.Taken] at hn
    omega

/-- The call of `execv` is the step after that many. -/
theorem Taken.eq_distance {n : ℕ} {argv : List String} (hn : c.Taken n)
    (h : c.step (.execv argv) = some c') : n = c.distance := by
  cases step_cases h with
  | execv hpc => rwa [Taken, hpc] at hn

end Child
end Srun
