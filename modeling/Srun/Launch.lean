import Srun.Answers
import Srun.Execute
import Srun.Framework.Observer

/-!
# The command and its memory cgroup

After the clone two processes run: the manager, which creates the leaf, writes the
limits and moves the child into the leaf, and the child, which goes through `execute`
to `execv`. Nothing makes one wait for the other.

`Launch` puts the manager process next to the child that it has cloned last and to
what the kernel keeps about the memory cgroups: the limits that have been written to
each leaf, the leaf of the child, and the leaf of every process that descends from a
command. A write to `cgroup.procs` moves the process that it names, and no other; a
fork begins in the cgroup of its parent. Whether there are limits on memory and swap
is a matter of the kernel (`swap`): then every leaf has the file for it.

`confined_iff` says what the limits depend on: the manager must have written the pid to
`cgroup.procs` before the child has had the steps that `execute` takes to `execv`, which
are nine and one for each entry of `envs` (`Paced`). An observer counts them.
-/

namespace Srun

/-- The set-up of the cgroup, up to the write to `cgroup.procs`. -/
def Pc.caging : Pc → Bool
  | .handle .leaf _ _ | .handle .memlimit _ _ | .handle .memswExists _ _
  | .handle .memswlimit _ _ | .handle .procs _ _ => true
  | _ => false

/-- The set-up before the limit on memory has been written. -/
def Pc.unlimited : Pc → Bool
  | .handle .leaf _ _ | .handle .memlimit _ _ => true
  | _ => false

/-- The set-up before the limit on memory and swap has been written. -/
def Pc.unswapped : Pc → Bool
  | .handle .leaf _ _ | .handle .memlimit _ _ | .handle .memswExists _ _
  | .handle .memswlimit _ _ => true
  | _ => false

/-- An operation of the set-up succeeds, and writes what it should. `swap` says whether the
leaf has the file for the limit on memory and swap. -/
def Label.cages (swap : Bool) : Label → Bool
  | .createLeaf _ ok => ok
  | .memswExists _ r => r = some swap
  | .writeCgroup _ _ _ r => r = .complete
  | _ => true

/-- A limit of the request is in force. -/
def Request.limited (swap : Bool) (r : Request) : Bool :=
  r.memlimitValue.isSome || swap && r.memswlimitValue.isSome

theorem Label.cages_of_throws {swap : Bool} {pc : Pc} {l : Label} (h : pc.throws l = true)
    (hc : pc.caging = true) : l.cages swap = false := by
  unfold Pc.throws at h
  split at h <;> first | rfl | cases hc | cases h

theorem Pc.caging_of_unlockThrow {pc : Pc} (h : pc.unlockThrow = true) : pc.caging = false := by
  unfold unlockThrow at h
  split at h <;> first | rfl | cases h

theorem Pc.unlimited_of_caging {pc : Pc} (h : pc.caging = false) :
    pc.unlimited = false ∧ pc.unswapped = false := by
  cases pc with
  | handle pt => cases pt <;> first | exact ⟨rfl, rfl⟩ | cases h
  | _ => exact ⟨rfl, rfl⟩

/-- A process that descends from a command: the pid and the request of the command,
and the leaf in which the process is. -/
structure Descendant where
  command : Int
  request : Request
  cgroup : Option Int

/-- A manager process, the child it has cloned last, and the memory cgroups. -/
structure Launch where
  proc : Proc
  /-- The pid of the child. -/
  pid : Int := 0
  child : Child := {}
  /-- The leaf in which the child is. -/
  cgroup : Option Int := none
  /-- What has been written to `memory.limit_in_bytes` of each leaf. -/
  limit : Int → Option String := fun _ => none
  /-- What has been written to `memory.memsw.limit_in_bytes` of each leaf. -/
  memsw : Int → Option String := fun _ => none
  descendants : List Descendant := []

/-- What can happen. -/
inductive LaunchEvent
  | server (l : Label)
  | child (l : ChildLabel)
  /-- The child ends. -/
  | exit (st : WaitStatus)
  /-- The command forks. -/
  | fork
  /-- The descendant at position `i` forks. -/
  | refork (i : ℕ)
  /-- The descendant at position `i` ends. -/
  | gone (i : ℕ)

namespace Launch

def start (fd : ℕ) : Launch := { proc := Proc.start fd }

/-- The child has not ended. -/
def alive (s : Launch) : Bool := (s.pid, .alive) ∈ s.proc.children

/-- What the kernel does in a step of the manager. -/
def kernel (s : Launch) : Label → Launch
  | .clone pid =>
    if pid = -1 then s
    else { s with
      pid := pid
      child := { request := s.proc.mgr.request, out := s.proc.mgr.out, err := s.proc.mgr.err
                 pc := .dupOut }
      cgroup := none }
  | .writeCgroup leaf .memlimit v .complete =>
    { s with limit := fun pid => if pid = leaf then some v else s.limit pid }
  | .writeCgroup leaf .memswlimit v .complete =>
    { s with memsw := fun pid => if pid = leaf then some v else s.memsw pid }
  | .writeCgroup leaf .procs v .complete =>
    if v = toString s.pid then { s with cgroup := some leaf } else s
  | _ => s

/-- One step. -/
def step (E : Env) (s : Launch) : LaunchEvent → Option Launch
  | .server l => (s.proc.step E (.mgr l)).map fun p => { s.kernel l with proc := p }
  | .child l => if s.alive then (s.child.step l).map fun c => { s with child := c } else none
  | .exit st =>
    (s.proc.step E (.exit s.pid st)).map fun p => { s with proc := p, child.pc := .ended }
  | .fork =>
    if s.alive && s.child.pc = .command then
      some { s with descendants := s.descendants ++ [⟨s.pid, s.child.request, s.cgroup⟩] }
    else none
  | .refork i => s.descendants[i]?.map fun d => { s with descendants := s.descendants ++ [d] }
  | .gone i => some { s with descendants := s.descendants.eraseIdx i }

/-- What the limits are for: when a child calls `execv`, those of its limits that are in
force have been written, and if there is one, the child is in its leaf, and so is every
process that descends from it. -/
structure Confined (swap : Bool) (s : Launch) : Prop where
  limit : s.child.reached = true → ∀ v, s.child.request.memlimitValue = some v →
    s.limit s.pid = some v
  memsw : s.child.reached = true → swap = true →
    ∀ v, s.child.request.memswlimitValue = some v → s.memsw s.pid = some v
  inside : s.child.reached = true → s.child.request.limited swap = true → s.cgroup = some s.pid
  descendants : ∀ d ∈ s.descendants, d.request.limited swap = true → d.cgroup = some d.command

/-- The operations of the set-up succeed. -/
def Succeeds (swap : Bool) (s : Launch) (ev : LaunchEvent) : Prop :=
  ∀ l, ev = .server l → s.proc.mgr.pc.caging = true → l.cages swap = true

/-- The steps that the child has taken, after an event. -/
def taken (_ : Launch) (ev : LaunchEvent) (_ : Launch) (n : ℕ) : ℕ :=
  match ev with
  | .server (.clone pid) => if pid = -1 then n else 0
  | .child _ => n + 1
  | _ => n

/-- While the manager is between the clone and the write to `cgroup.procs`, a child with a
limit takes no more steps than `execute` has before `execv`. -/
def Paced (swap : Bool) (o : Machine.Observed Launch ℕ) (ev : LaunchEvent) : Prop :=
  ∀ l, ev = .child l → o.state.child.request.limited swap = true →
    o.state.proc.mgr.pc.caging = true → o.seen < o.state.child.distance

instance (swap : Bool) (s : Launch) (ev : LaunchEvent) : Decidable (Succeeds swap s ev) :=
  match ev with
  | .server l =>
    decidable_of_iff (s.proc.mgr.pc.caging = true → l.cages swap = true)
      ⟨fun h l' hl => (by cases hl; exact h), fun h => h l rfl⟩
  | .child _ | .exit _ | .fork | .refork _ | .gone _ => isTrue (by intro _ h; cases h)

instance (swap : Bool) (o : Machine.Observed Launch ℕ) (ev : LaunchEvent) :
    Decidable (Paced swap o ev) :=
  match ev with
  | .child l =>
    decidable_of_iff (o.state.child.request.limited swap = true →
        o.state.proc.mgr.pc.caging = true → o.seen < o.state.child.distance)
      ⟨fun h _ _ => h, fun h => h l rfl⟩
  | .server _ | .exit _ | .fork | .refork _ | .gone _ => isTrue (by intro _ h; cases h)

variable {E : Env} {swap : Bool} {s s' : Launch} {p : Proc} {l : Label}

/-- What holds while the operations of the set-up succeed. -/
structure Caged (swap : Bool) (s : Launch) : Prop where
  core : Proc.Core s.proc
  launched : Proc.Launched s.proc
  pid : s.proc.mgr.childStatus = .procRunning → s.pid = s.proc.mgr.clonepid
  alive : s.child.reached = true → s.alive = true
  /-- The child has the request of the manager, the user apart, and is outside. -/
  caging : s.proc.mgr.pc.caging = true →
    (∃ user, s.child.request = { s.proc.mgr.request with user := user }) ∧ s.cgroup = none
  limit : s.proc.mgr.childStatus = .procRunning → s.proc.mgr.pc.unlimited = false →
    ∀ v, s.child.request.memlimitValue = some v → s.limit s.pid = some v
  memsw : s.proc.mgr.childStatus = .procRunning → s.proc.mgr.pc.unswapped = false →
    swap = true → ∀ v, s.child.request.memswlimitValue = some v → s.memsw s.pid = some v
  inside : s.proc.mgr.childStatus = .procRunning → s.proc.mgr.pc.caging = false →
    s.cgroup = some s.pid

theorem Caged.start (fd : ℕ) : Caged swap (start fd) where
  core := Proc.Core.start fd
  launched := fun h => by simp [Launch.start, Proc.start, Pc.setup] at h
  pid := fun h => by simp [Launch.start, Proc.start] at h
  alive := fun h => by simp [Launch.start, Child.reached] at h
  caging := fun h => by simp [Launch.start, Proc.start, Pc.caging] at h
  limit := fun h => by simp [Launch.start, Proc.start] at h
  memsw := fun h => by simp [Launch.start, Proc.start] at h
  inside := fun h => by simp [Launch.start, Proc.start] at h

/-- During the set-up the limits of the child are those of the manager's request. -/
theorem Caged.values (h : Caged swap s) (hc : s.proc.mgr.pc.caging = true) :
    s.child.request.memlimitValue = s.proc.mgr.request.memlimitValue ∧
      s.child.request.memswlimitValue = s.proc.mgr.request.memswlimitValue := by
  obtain ⟨⟨user, hrequest⟩, -⟩ := h.caging hc
  rw [hrequest]
  exact ⟨rfl, rfl⟩

/-- A child that has not ended is there after every step of the manager. -/
theorem mem_childrenAfter {pid : Int} (h : (pid, .alive) ∈ p.children) :
    (pid, .alive) ∈ p.childrenAfter l := by
  unfold Proc.childrenAfter
  split
  · exact (List.mem_erase_of_ne (by simp)).mpr h
  · split
    · exact h
    · exact List.mem_cons_of_mem _ h
  · exact h

theorem kernel_of_throwing (h : l.throwing = true) : s.kernel l = s := by
  unfold kernel
  split <;> first | rfl | cases h

/-- A step of the manager changes a cgroup or the child in the set-up or by cloning. -/
theorem kernel_cases (hstep : Proc.Step E s.proc (.mgr l) p) :
    s.kernel l = s ∨ s.proc.mgr.pc.caging = true ∨ ∃ pid, l = .clone pid ∧ pid ≠ -1 := by
  cases hstep with
  | mgr hadm hm =>
    cases hm with
    | throws hl => exact Or.inl (kernel_of_throwing (Pc.throwing_of_throws hl).2)
    | clone hpc hpid => exact Or.inr (Or.inr ⟨_, rfl, hpid⟩)
    | memlimit hpc | memswlimit hpc | procs hpc => exact Or.inr (Or.inl (by rw [hpc]; rfl))
    | _ => exact Or.inl rfl

/-- Only the clone leads into the set-up, and outside it no command begins to run. -/
theorem outside_step (hcore : Proc.Core s.proc) (hpc : s.proc.mgr.pc.caging = false)
    (hl : ∀ pid, l = .clone pid → pid = -1) (hstep : Proc.Step E s.proc (.mgr l) p) :
    p.mgr.pc.caging = false ∧ (p.mgr.childStatus = .procRunning →
      s.proc.mgr.childStatus = .procRunning ∧ p.mgr.clonepid = s.proc.mgr.clonepid) := by
  cases hstep with
  | mgr hadm hm =>
    cases hm with
    | sigterm => exact ⟨hpc, fun hr => ⟨hr, rfl⟩⟩
    | waitOther => exact ⟨hpc, fun hr => ⟨hr, rfl⟩⟩
    | reap =>
      exact ⟨Manager.reaped_pc rfl rfl rfl, fun hr => by simp [Proc.reaped_childStatus] at hr⟩
    | argsSurvive hpc' =>
      -- the command has been reaped
      have hno := hcore.quiet (Or.inl (by rw [hpc']; rfl))
      refine ⟨Manager.clearEntry_pc rfl rfl, fun hr => absurd ?_ hno⟩
      rwa [Manager.clearEntry_field Manager.childStatus fun _ _ => rfl] at hr
    | loopCheck =>
      exact ⟨Manager.loopCheck_pc rfl (fun _ _ _ => rfl) fun _ => rfl, fun hr => ⟨hr, rfl⟩⟩
    | dispatch =>
      exact ⟨Manager.dispatch_pc rfl (fun _ => rfl) (fun _ _ => rfl) (fun _ _ => rfl) fun _ => rfl,
        fun hr => ⟨hr, rfl⟩⟩
    | received =>
      refine ⟨Manager.received_pc rfl rfl rfl rfl rfl rfl, fun hr => ⟨?_, ?_⟩⟩
      · rwa [Manager.received_field Manager.childStatus fun _ _ _ => rfl] at hr
      · exact Manager.received_field Manager.clonepid fun _ _ _ => rfl
    | @waitNone k => exact ⟨by cases k <;> rfl, fun hr => ⟨hr, rfl⟩⟩
    | @stopKill k | @stopIdle k => exact ⟨by cases k <;> rfl, fun hr => ⟨hr, rfl⟩⟩
    | @sent m k => exact ⟨by cases k <;> rfl, fun hr => ⟨hr, rfl⟩⟩
    | clone _ hpid => exact absurd (hl _ rfl) hpid
    | cloneFail hpc' =>
      exact ⟨rfl, fun hr => absurd hr (hcore.quiet (Or.inr (by rw [hpc']; rfl)))⟩
    -- the steps of the set-up
    | leaf hpc' | memlimit hpc' | memlimitSkip hpc' | memswFound hpc' | memswMissing hpc'
    | memswlimit hpc' | memswlimitSkip hpc' =>
      rw [hpc'] at hpc
      cases hpc
    | _ => exact ⟨rfl, fun hr => ⟨hr, rfl⟩⟩

/-- The manager takes a step outside the set-up. -/
theorem Caged.outside (h : Caged swap s) (hpc : s.proc.mgr.pc.caging = false)
    (hl : ∀ pid, l = .clone pid → pid = -1) (hstep : Proc.Step E s.proc (.mgr l) p) :
    Caged swap { s.kernel l with proc := p } := by
  obtain ⟨hpc', hrun⟩ := outside_step h.core hpc hl hstep
  have hk : s.kernel l = s := by
    rcases kernel_cases hstep with hk | hcage | ⟨pid, rfl, hne⟩
    · exact hk
    · rw [hpc] at hcage
      cases hcage
    · exact absurd (hl pid rfl) hne
  obtain ⟨hun, hsw⟩ := Pc.unlimited_of_caging hpc
  rw [hk]
  constructor
  case core => exact h.core.step hstep
  case launched => exact h.launched.step h.core hstep
  case pid => exact fun hr => (h.pid (hrun hr).1).trans (hrun hr).2.symm
  case alive =>
    intro hr
    cases hstep with
    | mgr => exact decide_eq_true (mem_childrenAfter (of_decide_eq_true (h.alive hr)))
  case caging =>
    intro hc
    rw [hpc'] at hc
    cases hc
  case limit => exact fun hr _ => h.limit (hrun hr).1 hun
  case memsw => exact fun hr _ => h.memsw (hrun hr).1 hsw
  case inside => exact fun hr _ => h.inside (hrun hr).1 hpc

/-- A new child, outside every leaf, with the request of the manager. -/
theorem Caged.cloned (h : Caged swap s) {pid : Int} (hpid : pid ≠ -1)
    (hstep : Proc.Step E s.proc (.mgr (.clone pid)) p) :
    Caged swap { s.kernel (.clone pid) with proc := p } := by
  have hcore := h.core.step hstep
  have hlaunched := h.launched.step h.core hstep
  have hk : s.kernel (.clone pid) = { s with
      pid := pid
      child := { request := s.proc.mgr.request, out := s.proc.mgr.out, err := s.proc.mgr.err
                 pc := .dupOut }
      cgroup := none } := if_neg hpid
  rw [hk]
  cases hstep with
  | mgr hadm hm =>
    cases hm with
    | cloneFail => exact absurd rfl hpid
    | throws hl => cases (Pc.throwing_of_throws hl).2
    | clone hpc =>
      constructor
      case core => exact hcore
      case launched => exact hlaunched
      case pid => exact fun _ => rfl
      case alive =>
        intro hr
        simp [Child.reached] at hr
      case caging => exact fun _ => ⟨⟨s.proc.mgr.request.user, rfl⟩, rfl⟩
      case limit =>
        intro _ hu
        cases hu
      case memsw =>
        intro _ hu
        cases hu
      case inside =>
        intro _ hc
        cases hc

/-- The manager takes a step of the set-up. -/
theorem Caged.setup (h : Caged swap s) (hcage : s.proc.mgr.pc.caging = true)
    (hs : l.cages swap = true) (hstep : Proc.Step E s.proc (.mgr l) p) :
    Caged swap { s.kernel l with proc := p } := by
  have hcore := h.core.step hstep
  have hlaunched := h.launched.step h.core hstep
  obtain ⟨hmem, hmemsw⟩ := h.values hcage
  cases hstep with
  | mgr hadm hm =>
    cases hm with
    | sigterm => exact ⟨hcore, hlaunched, h.pid, h.alive, h.caging, h.limit, h.memsw, h.inside⟩
    | throws hl =>
      rw [Label.cages_of_throws hl hcage] at hs
      cases hs
    | leaf hpc =>
      exact ⟨hcore, hlaunched, h.pid, h.alive, fun _ => h.caging hcage, fun _ hu => (by cases hu),
        fun _ hu => (by cases hu), fun _ hc => (by cases hc)⟩
    | @memlimit _ _ v r hpc hv =>
      have hrun := h.launched (by rw [hpc]; rfl)
      obtain rfl : r = .complete := of_decide_eq_true hs
      refine ⟨hcore, hlaunched, h.pid, h.alive, fun _ => h.caging hcage, fun _ _ v' hv' => ?_,
        fun _ hu => (by cases hu), fun _ hc => (by cases hc)⟩
      -- the value written is that of the child's request
      have hv' : s.child.request.memlimitValue = some v' := hv'
      rw [hmem, hv] at hv'
      exact (if_pos (h.pid hrun)).trans hv'
    | memlimitSkip hpc hv =>
      refine ⟨hcore, hlaunched, h.pid, h.alive, fun _ => h.caging hcage, fun _ _ v' hv' => ?_,
        fun _ hu => (by cases hu), fun _ hc => (by cases hc)⟩
      -- there is no limit to be written
      have hv' : s.child.request.memlimitValue = some v' := hv'
      rw [hmem, hv] at hv'
      cases hv'
    | memswFound hpc =>
      exact ⟨hcore, hlaunched, h.pid, h.alive, fun _ => h.caging hcage,
        fun hr _ => h.limit hr (by rw [hpc]; rfl), fun _ hu => (by cases hu),
        fun _ hc => (by cases hc)⟩
    | memswMissing hpc =>
      -- without the file the kernel has no such limit
      obtain rfl : swap = false := by simpa [Label.cages] using hs
      exact ⟨hcore, hlaunched, h.pid, h.alive, fun _ => h.caging hcage,
        fun hr _ => h.limit hr (by rw [hpc]; rfl), fun _ _ hswap => (by cases hswap),
        fun _ hc => (by cases hc)⟩
    | @memswlimit _ _ v r hpc hv =>
      have hrun := h.launched (by rw [hpc]; rfl)
      obtain rfl : r = .complete := of_decide_eq_true hs
      refine ⟨hcore, hlaunched, h.pid, h.alive, fun _ => h.caging hcage,
        fun hr _ => h.limit hr (by rw [hpc]; rfl), fun _ _ _ v' hv' => ?_,
        fun _ hc => (by cases hc)⟩
      have hv' : s.child.request.memswlimitValue = some v' := hv'
      rw [hmemsw, hv] at hv'
      exact (if_pos (h.pid hrun)).trans hv'
    | memswlimitSkip hpc hv =>
      refine ⟨hcore, hlaunched, h.pid, h.alive, fun _ => h.caging hcage,
        fun hr _ => h.limit hr (by rw [hpc]; rfl), fun _ _ _ v' hv' => ?_,
        fun _ hc => (by cases hc)⟩
      have hv' : s.child.request.memswlimitValue = some v' := hv'
      rw [hmemsw, hv] at hv'
      cases hv'
    | @procs _ _ r hpc =>
      have hrun := h.launched (by rw [hpc]; rfl)
      obtain rfl : r = .complete := of_decide_eq_true hs
      -- the write moves the child, and the set-up of the cgroup is over
      have hk : s.kernel (.writeCgroup s.proc.mgr.clonepid .procs (toString s.proc.mgr.clonepid)
          .complete) = { s with cgroup := some s.pid } := by
        rw [kernel, if_pos (by rw [h.pid hrun]), h.pid hrun]
      rw [hk]
      exact ⟨hcore, hlaunched, h.pid, h.alive, fun hc => (by cases hc),
        fun hr _ => h.limit hr (by rw [hpc]; rfl), fun hr _ => h.memsw hr (by rw [hpc]; rfl),
        fun _ _ => rfl⟩
    -- elsewhere the set-up does not go on
    | unlockThrow hpc =>
      rw [Pc.caging_of_unlockThrow hpc] at hcage
      cases hcage
    | _ =>
      rw [‹s.proc.mgr.pc = _›] at hcage
      cases hcage

/-- The manager takes a step. -/
theorem Caged.server (h : Caged swap s) (hs : Succeeds swap s (.server l))
    (hstep : Proc.Step E s.proc (.mgr l) p) : Caged swap { s.kernel l with proc := p } := by
  by_cases hclone : ∃ pid, l = .clone pid ∧ pid ≠ -1
  · obtain ⟨pid, rfl, hpid⟩ := hclone
    exact h.cloned hpid hstep
  cases hcage : s.proc.mgr.pc.caging with
  | true => exact h.setup hcage (hs l rfl hcage) hstep
  | false =>
    exact h.outside hcage (fun pid hl => by_contra fun hpid => hclone ⟨pid, hl, hpid⟩) hstep

theorem Caged.step (h : Caged swap s) {ev : LaunchEvent} (hs : Succeeds swap s ev)
    (hstep : s.step E ev = some s') : Caged swap s' := by
  cases ev with
  | server l =>
    obtain ⟨p, hp, rfl⟩ := Option.map_eq_some_iff.mp hstep
    exact h.server hs (Proc.step_cases hp)
  | child l =>
    obtain ⟨halive, hstep⟩ := Option.ite_none_right_eq_some.mp hstep
    obtain ⟨c, hc, rfl⟩ := Option.map_eq_some_iff.mp hstep
    -- `execute` does not change the limits of its request
    obtain ⟨user, hrequest⟩ := Child.step_request hc
    refine ⟨h.core, h.launched, h.pid, fun _ => halive, fun hcage => ?_, fun hr hu => ?_,
      fun hr hu => ?_, h.inside⟩
    · obtain ⟨⟨user', hsame⟩, hout⟩ := h.caging hcage
      exact ⟨⟨user, by rw [hrequest, hsame]⟩, hout⟩
    · rw [hrequest]
      exact h.limit hr hu
    · rw [hrequest]
      exact h.memsw hr hu
  | exit st =>
    obtain ⟨p, hp, rfl⟩ := Option.map_eq_some_iff.mp hstep
    have hcore := h.core.step (Proc.step_cases hp)
    cases Proc.step_cases hp with
    | exit hc hst =>
      exact ⟨hcore, h.launched, h.pid, fun hr => (by cases hr), h.caging, h.limit, h.memsw,
        h.inside⟩
  | fork =>
    obtain ⟨-, hstep⟩ := Option.ite_none_right_eq_some.mp hstep
    cases hstep
    exact ⟨h.core, h.launched, h.pid, h.alive, h.caging, h.limit, h.memsw, h.inside⟩
  | refork i =>
    obtain ⟨d, -, rfl⟩ := Option.map_eq_some_iff.mp hstep
    exact ⟨h.core, h.launched, h.pid, h.alive, h.caging, h.limit, h.memsw, h.inside⟩
  | gone i =>
    cases hstep
    exact ⟨h.core, h.launched, h.pid, h.alive, h.caging, h.limit, h.memsw, h.inside⟩

/-- Where the child is confined, it has not called `execv` during the set-up. -/
theorem Confined.caging (h : Confined swap s) (hc : Caged swap s) (hr : s.child.reached = true)
    (hv : s.child.request.limited swap = true) : s.proc.mgr.pc.caging = false := by
  refine Bool.eq_false_iff.mpr fun hcage => ?_
  have hin := h.inside hr hv
  rw [(hc.caging hcage).2] at hin
  cases hin

/-- After the set-up the child is in its leaf, under its limits. -/
theorem Caged.confined (h : Caged swap s) (hr : s.child.reached = true)
    (hcage : s.proc.mgr.pc.caging = false)
    (hd : ∀ d ∈ s.descendants, d.request.limited swap = true → d.cgroup = some d.command) :
    Confined swap s := by
  obtain ⟨hrun, -⟩ := h.core.mem_children (of_decide_eq_true (h.alive hr))
  obtain ⟨hun, hsw⟩ := Pc.unlimited_of_caging hcage
  exact ⟨fun _ => h.limit hrun hun, fun _ => h.memsw hrun hsw, fun _ _ => h.inside hrun hcage, hd⟩

/-- A child without a limit, or one that has not called `execv`, needs no leaf. -/
theorem Confined.of_free
    (h : s.child.reached = true → s.child.request.limited swap = false)
    (hd : ∀ d ∈ s.descendants, d.request.limited swap = true → d.cgroup = some d.command) :
    Confined swap s := by
  refine ⟨fun hr v hv => ?_, fun hr hswap v hv => ?_, fun hr hv => ?_, hd⟩
  · have hfree := h hr
    simp [Request.limited, hv] at hfree
  · have hfree := h hr
    simp [Request.limited, hv, hswap] at hfree
  · rw [h hr] at hv
    cases hv

theorem kernel_descendants : (s.kernel l).descendants = s.descendants := by
  unfold kernel
  split <;> (try split) <;> rfl

/-- Only the clone changes the child. -/
theorem kernel_of_ne_clone (hl : ∀ pid, l = .clone pid → pid = -1) :
    (s.kernel l).child = s.child ∧ (s.kernel l).pid = s.pid := by
  unfold kernel
  split
  · rw [if_pos (hl _ rfl)]
    exact ⟨rfl, rfl⟩
  · exact ⟨rfl, rfl⟩
  · exact ⟨rfl, rfl⟩
  · split <;> exact ⟨rfl, rfl⟩
  · exact ⟨rfl, rfl⟩

theorem kernel_clone {pid : Int} (hpid : pid ≠ -1) :
    (s.kernel (.clone pid)).child.pc = .dupOut := by
  rw [kernel, if_neg hpid]

/-- The manager does not end the confinement. -/
theorem Confined.server (h : Confined swap s) (hc : Caged swap s)
    (hc' : Caged swap { s.kernel l with proc := p }) (hstep : Proc.Step E s.proc (.mgr l) p) :
    Confined swap { s.kernel l with proc := p } := by
  have hd : ∀ d ∈ (s.kernel l).descendants, d.request.limited swap = true →
      d.cgroup = some d.command := by
    rw [kernel_descendants]
    exact h.descendants
  by_cases hclone : ∃ pid, l = .clone pid ∧ pid ≠ -1
  · obtain ⟨pid, rfl, hpid⟩ := hclone
    refine .of_free (fun hr => ?_) hd
    simp [Child.reached, kernel_clone hpid] at hr
  have hl : ∀ pid, l = .clone pid → pid = -1 := fun pid hl =>
    by_contra fun hpid => hclone ⟨pid, hl, hpid⟩
  obtain ⟨hchild, -⟩ := kernel_of_ne_clone (s := s) hl
  by_cases hfree : s.child.reached = true → s.child.request.limited swap = false
  · exact .of_free (fun hr => by rw [hchild] at hr ⊢; exact hfree hr) hd
  · -- the child has called `execv`, so that the set-up is over
    obtain ⟨hr, hv⟩ := Classical.not_imp.mp hfree
    have hcage := h.caging hc hr (Bool.eq_true_of_not_eq_false hv)
    exact hc'.confined (by rwa [hchild]) (outside_step hc.core hcage hl hstep).1 hd

/-- **One step.** Only a child that is too fast ends the confinement. -/
theorem Confined.step_iff (h : Confined swap s) (hc : Caged swap s) {n : ℕ}
    (hn : s.child.Taken n) {ev : LaunchEvent} (hs : Succeeds swap s ev)
    (hstep : s.step E ev = some s') : Confined swap s' ↔ Paced swap ⟨s, n⟩ ev := by
  have hc' := hc.step hs hstep
  cases ev with
  | server l =>
    obtain ⟨p, hp, rfl⟩ := Option.map_eq_some_iff.mp hstep
    exact iff_of_true (h.server hc hc' (Proc.step_cases hp)) (by intro _ h; cases h)
  | child l =>
    obtain ⟨-, hstep⟩ := Option.ite_none_right_eq_some.mp hstep
    obtain ⟨c, hchild, rfl⟩ := Option.map_eq_some_iff.mp hstep
    have hsame : c.request.limited swap = s.child.request.limited swap := by
      obtain ⟨user, hrequest⟩ := Child.step_request hchild
      rw [hrequest]
      rfl
    constructor
    · rintro hconf l ⟨⟩ hv hcage
      -- a confined child has not called `execv`, neither before the step nor in it
      refine hn.lt_distance hchild (Bool.eq_false_iff.mpr fun hr => ?_)
        (Bool.eq_false_iff.mpr fun hr => ?_)
      · have hout := hconf.caging hc' hr (hsame.trans hv)
        rw [show s.proc.mgr.pc.caging = false from hout] at hcage
        cases hcage
      · rw [h.caging hc hr hv] at hcage
        cases hcage
    · intro hpaced
      by_cases hfree : c.reached = true → c.request.limited swap = false
      · exact .of_free hfree h.descendants
      · obtain ⟨hr, hv⟩ := Classical.not_imp.mp hfree
        have hv : s.child.request.limited swap = true :=
          hsame.symm.trans (Bool.eq_true_of_not_eq_false hv)
        refine hc'.confined hr (Bool.eq_false_iff.mpr fun hcage => ?_) h.descendants
        rcases Child.reached_of_step hchild hr with hr' | ⟨argv, rfl⟩
        · have hcage : s.proc.mgr.pc.caging = true := hcage
          rw [h.caging hc hr' hv] at hcage
          cases hcage
        · -- the call of `execv` is the step that is one too many
          exact absurd (hn.eq_distance hchild) (hpaced _ rfl hv hcage).ne
  | exit st =>
    obtain ⟨p, hp, rfl⟩ := Option.map_eq_some_iff.mp hstep
    exact iff_of_true (.of_free (fun hr => by cases hr) h.descendants) (by intro _ h; cases h)
  | fork =>
    obtain ⟨hfork, hstep⟩ := Option.ite_none_right_eq_some.mp hstep
    cases hstep
    refine iff_of_true ⟨h.limit, h.memsw, h.inside, fun d hd hv => ?_⟩ (by intro _ h; cases h)
    -- the new descendant begins where the command is
    rcases List.mem_append.mp hd with hd | hd
    · exact h.descendants d hd hv
    · obtain rfl := List.mem_singleton.mp hd
      have hpc : s.child.pc = .command := (by simpa using hfork : _ ∧ _).2
      exact h.inside (by simp [Child.reached, hpc]) hv
  | refork i =>
    obtain ⟨d, hd, rfl⟩ := Option.map_eq_some_iff.mp hstep
    refine iff_of_true ⟨h.limit, h.memsw, h.inside, fun d' hd' => ?_⟩ (by intro _ h; cases h)
    rcases List.mem_append.mp hd' with hd' | hd'
    · exact h.descendants d' hd'
    · obtain rfl := List.mem_singleton.mp hd'
      exact h.descendants d' (List.mem_of_getElem? hd)
  | gone i =>
    cases hstep
    exact iff_of_true ⟨h.limit, h.memsw, h.inside, fun d hd =>
      h.descendants d (List.mem_of_mem_eraseIdx hd)⟩ (by intro _ h; cases h)

/-- The observer counts the steps of the child. -/
theorem taken_step {n : ℕ} (hn : s.child.Taken n) {ev : LaunchEvent}
    (hstep : s.step E ev = some s') : s'.child.Taken (taken s ev s' n) := by
  cases ev with
  | server l =>
    obtain ⟨p, -, rfl⟩ := Option.map_eq_some_iff.mp hstep
    by_cases hclone : ∃ pid, l = .clone pid ∧ pid ≠ -1
    · obtain ⟨pid, rfl, hpid⟩ := hclone
      rw [taken, if_neg hpid, Child.Taken, kernel_clone hpid]
      rfl
    · have hl : ∀ pid, l = .clone pid → pid = -1 := fun pid hl =>
        by_contra fun hpid => hclone ⟨pid, hl, hpid⟩
      have hkept : taken s (.server l) { s.kernel l with proc := p } n = n := by
        unfold taken
        split
        · next heq =>
          cases heq
          exact if_pos (hl _ rfl)
        · next heq => cases heq
        · rfl
      rw [hkept]
      show (s.kernel l).child.Taken n
      rwa [(kernel_of_ne_clone hl).1]
  | child l =>
    obtain ⟨-, hstep⟩ := Option.ite_none_right_eq_some.mp hstep
    obtain ⟨c, hchild, rfl⟩ := Option.map_eq_some_iff.mp hstep
    exact hn.step hchild
  | exit st =>
    obtain ⟨p, -, rfl⟩ := Option.map_eq_some_iff.mp hstep
    exact trivial
  | fork =>
    obtain ⟨-, hstep⟩ := Option.ite_none_right_eq_some.mp hstep
    cases hstep
    exact hn
  | refork i =>
    obtain ⟨d, -, rfl⟩ := Option.map_eq_some_iff.mp hstep
    exact hn
  | gone i =>
    cases hstep
    exact hn

/-- The steps of `execute` for `/bin/ls`, up to the command. -/
def childLabels : List ChildLabel :=
  [.dup 1 none, .dup 2 none, .getpwnam "nobody" (some (99, 99)), .setgid 99 true,
   .setuid 99 true, .tau, .prctl, .nice 0, .tau, .execv ["/bin/ls"], .loaded true]

/-- The manager up to the clone, and from there. -/
def cloneEvents : List LaunchEvent :=
  (Proc.bootLabels ++ Proc.receiveLabels Proc.lsData ++
    (Proc.handleLabels Proc.lsData.bytes 100).take 5).map .server

def setupEvents : List LaunchEvent :=
  ((Proc.handleLabels Proc.lsData.bytes 100).drop 5).map .server

/-- The set-up up to the write to `cgroup.procs`, with the limit on memory and swap. -/
def swapEvents : List LaunchEvent :=
  [.server (.createLeaf 100 true), .server (.writeCgroup 100 .memlimit "100M" .complete),
    .server (.memswExists 100 (some true)),
    .server (.writeCgroup 100 .memswlimit "1G" .complete),
    .server (.writeCgroup 100 .procs "100" .complete)]

end Launch
end Srun
