import Srun.Proc
import Srun.Proto3

/-!
# A manager and its own child

The invariant that ties `clonepid` and `child_status` to the children that the
kernel keeps for the process (`Proc.Core`): while the status is PROC_RUNNING there
is exactly one unreaped child and `clonepid` is its pid; otherwise there is none,
and `clonepid` is not positive (0, or -1 after a failed clone) except at the one
point where `wait_child` is about to log the command it has just reaped.

Between the guard of `handle_request` and the clone nothing runs (`Pc.launching`),
which is why the guard suffices; and `manager_destroy` reaches its `kill` only with
a running child. Few steps touch the two variables. All the others only have to
keep away from the points that the invariant speaks of (`Pc.plain`).
-/

namespace Srun

namespace Pc

/-- `handle_request` after its guard and before the clone has returned. -/
def launching : Pc → Bool
  | .handle .find _ _ | .handle .loadOut _ _ | .handle .loadErr _ _ | .handle .clone _ _ => true
  | _ => false

/-- `wait_child` logs the command it has reaped. -/
def logging : Pc → Bool
  | .argsRead _ => true
  | _ => false

/-- The points at which `clonepid` may still be the pid of a reaped command. -/
def stale : Pc → Bool
  | .argsRead _ | .gone _ => true
  | _ => false

/-- `manager_destroy` is about to kill. -/
def killing : Pc → Bool
  | .destroy .kill _ => true
  | _ => false

/-- The points that the invariant says nothing about. -/
def plain (pc : Pc) : Bool := !pc.launching && !pc.logging && !pc.killing

/-- The entries of `stop_child`, `manager_destroy`, `wait_child` and `handle_request`. -/
def entry : Pc → Bool
  | .stopChild _ | .destroy .entry _ | .waitChild _ | .handle .entry _ _ => true
  | _ => false

/-- The points at which `stop_child` and `manager_destroy` call `kill`. -/
def ownKill : Pc → Bool
  | .stopChild _ | .destroy .kill _ => true
  | _ => false

end Pc

theorem WaitRet.plain (k : WaitRet) : k.pc.plain = true := by cases k <;> rfl

theorem StopRet.plain (k : StopRet) : k.pc.plain = true := by cases k <;> rfl

theorem SendRet.plain (k : SendRet) : k.pc.plain = true := by cases k <;> rfl

theorem Pc.stale_of_throwing {pc : Pc} (h : pc.throwing = true) : pc.stale = false := by
  cases pc <;> first | rfl | cases h

theorem Pc.stale_of_unlockThrow {pc : Pc} (h : pc.unlockThrow = true) : pc.stale = false := by
  cases pc <;> first | rfl | cases h

namespace Proc

/-- The invariant of a manager process about its children. -/
structure Core (p : Proc) : Prop where
  /-- While the command runs it is the only unreaped child. -/
  running : p.mgr.childStatus = .procRunning →
    ∃ life, p.children = [(p.mgr.clonepid, life)] ∧ 0 < p.mgr.clonepid
  /-- Otherwise there is no unreaped child. -/
  idle : p.mgr.childStatus ≠ .procRunning → p.children = []
  /-- Then `clonepid` has been reset, but for the log line of `wait_child`. -/
  cleared : p.mgr.childStatus ≠ .procRunning → p.mgr.pc.stale = false → p.mgr.clonepid ≤ 0
  /-- Nothing runs where `wait_child` logs and where `handle_request` may clone. -/
  quiet : p.mgr.pc.logging = true ∨ p.mgr.pc.launching = true →
    p.mgr.childStatus ≠ .procRunning
  /-- `manager_destroy` kills only a running child. -/
  killing : p.mgr.pc.killing = true → p.mgr.childStatus = .procRunning

theorem Core.start (fd : ℕ) : Core (start fd) where
  running := fun h => by cases h
  idle := fun _ => rfl
  cleared := fun _ _ => Int.le_refl _
  quiet := fun _ => (by intro h; cases h)
  killing := fun h => by cases h

variable {E : Env} {p p' : Proc}

/-- An unreaped child is the running command. -/
theorem Core.mem_children (h : Core p) {pid : Int} {life : Life} (hmem : (pid, life) ∈ p.children) :
    p.mgr.childStatus = .procRunning ∧ p.children = [(pid, life)] ∧ pid = p.mgr.clonepid ∧
      0 < pid := by
  have hrun : p.mgr.childStatus = .procRunning := by
    by_contra hr
    rw [h.idle hr] at hmem
    cases hmem
  obtain ⟨life', hch, hpos⟩ := h.running hrun
  rw [hch, List.mem_singleton] at hmem
  obtain ⟨rfl, rfl⟩ := Prod.mk.inj hmem
  exact ⟨hrun, hch, rfl, hpos⟩

/-- **Frame rule.** A step that leaves the two variables and the children alone and
goes to a plain point preserves the invariant. -/
theorem Core.frame (h : Core p) {m : Manager} {hi : History} (hstale : p.mgr.pc.stale = false)
    (hs : m.childStatus = p.mgr.childStatus) (hc : m.clonepid = p.mgr.clonepid)
    (hplain : m.pc.plain = true) : Core { mgr := m, children := p.children, hist := hi } := by
  simp only [Pc.plain, Bool.and_eq_true, Bool.not_eq_true'] at hplain
  obtain ⟨⟨hlaunch, hlog'⟩, hkill⟩ := hplain
  constructor <;> simp only [hs, hc, hlaunch, hlog', hkill]
  case running => exact h.running
  case idle => exact h.idle
  case cleared => exact fun hr _ => h.cleared hr hstale
  case quiet => rintro (h | h) <;> cases h
  case killing => intro h; cases h

/-- Going on inside the launching points preserves the invariant. -/
theorem Core.launch (h : Core p) {m : Manager} {hi : History}
    (hlaunch : p.mgr.pc.launching = true) (hs : m.childStatus = p.mgr.childStatus)
    (hc : m.clonepid = p.mgr.clonepid) (hstale : p.mgr.pc.stale = false)
    (hlog' : m.pc.logging = false) (hkill : m.pc.killing = false) :
    Core { mgr := m, children := p.children, hist := hi } := by
  constructor <;> simp only [hs, hc, hlog', hkill]
  case running => exact h.running
  case idle => exact h.idle
  case cleared => exact fun hr _ => h.cleared hr hstale
  -- the status is the one that the guard has let through
  case quiet => exact fun _ => h.quiet (Or.inr hlaunch)
  case killing => intro h; cases h

/-- Without a running child, clearing `clonepid` preserves the invariant. -/
theorem Core.clear {m : Manager} {hi : History} {k : WaitRet} (hs : m.childStatus ≠ .procRunning) :
    Core { mgr := m.clearEntry k, children := [], hist := hi } := by
  unfold Manager.clearEntry
  split
  · exact ⟨fun h => absurd h hs, fun _ => rfl, fun _ _ => Int.le_refl _, fun _ => hs,
      (by intro h; cases h)⟩
  · next hc =>
    exact ⟨fun h => absurd h hs, fun _ => rfl, fun _ _ => Int.not_lt.mp hc, fun _ => hs,
      (by intro h; cases h)⟩

/-- Reaping the command preserves the invariant: its child was the only one. -/
theorem Core.reap (h : Core p) {st : WaitStatus} {k : WaitRet} {hi : History}
    (hadm : (p.mgr.clonepid, .zombie st) ∈ p.children) :
    Core { mgr := p.mgr.reaped st k
           children := p.children.erase (p.mgr.clonepid, .zombie st), hist := hi } := by
  obtain ⟨-, hch, -, -⟩ := h.mem_children hadm
  rw [hch, List.erase_cons_head]
  cases st with
  | exited code => exact Core.clear (by intro h; cases h)
  | other => exact Core.clear (by intro h; cases h)
  | signaled sig =>
    simp only [Manager.reaped]
    split
    · exact ⟨(by intro h; cases h), fun _ => rfl, (by intro _ h; cases h),
        fun _ => (by intro h; cases h), (by intro h; cases h)⟩
    · exact Core.clear (by intro h; cases h)

/-- The invariant is preserved by every step. -/
theorem Core.step {ev : Event} (h : Core p) (hstep : Proc.Step E p ev p') : Core p' := by
  cases hstep with
  -- the child that ends is the running command; it stays unreaped
  | @exit pid st hc hst =>
    obtain ⟨hrun, hch, hpid, hpos⟩ := h.mem_children hc
    refine ⟨fun _ => ⟨.zombie st, ?_, hpid ▸ hpos⟩, fun hr => absurd hrun hr,
      fun hr => absurd hrun hr, h.quiet, h.killing⟩
    -- the only child keeps its pid
    rw [hch, List.map_singleton, if_pos rfl, hpid]
  | mgr hadm hm =>
    cases hm with
    | sigterm => exact ⟨h.running, h.idle, h.cleared, h.quiet, h.killing⟩
    | throws hl =>
      obtain ⟨hpc, hl⟩ := Pc.throwing_of_throws hl
      rw [childrenAfter_of_throwing hl]
      exact h.frame (Pc.stale_of_throwing hpc) rfl rfl rfl
    | unlockThrow hpc => exact h.frame (Pc.stale_of_unlockThrow hpc) rfl rfl rfl
    | reap hpc => exact h.reap (by simpa [admits] using hadm)
    | @waitOther k pid st hpc hpid =>
      -- there is no other child
      have hmem : (pid, Life.zombie st) ∈ p.children := by simpa [admits] using hadm
      exact absurd (h.mem_children hmem).2.2.1.symm hpid
    -- the command has been reaped, so no child is left when the log line dies
    | argsDie hpc =>
      have hr := h.quiet (Or.inl (by rw [hpc]; rfl))
      exact ⟨fun hr' => absurd hr' hr, fun _ => h.idle hr, (by intro _ h; cases h), fun _ => hr,
        (by intro h; cases h)⟩
    | argsSurvive hpc =>
      have hr := h.quiet (Or.inl (by rw [hpc]; rfl))
      simp only [childrenAfter, h.idle hr]
      exact Core.clear hr
    | loopCheck hpc =>
      exact h.frame (by rw [hpc]; rfl) rfl rfl
        (Manager.loopCheck_pc rfl (fun _ _ _ => rfl) fun _ => rfl)
    | dispatch evs hpc =>
      exact h.frame (by rw [hpc]; rfl) rfl rfl
        (Manager.dispatch_pc rfl (fun _ => rfl) (fun _ _ => rfl) (fun _ _ => rfl) fun _ => rfl)
    | received hpc hdata hparse =>
      exact h.frame (by rw [hpc]; rfl) (Manager.received_field Manager.childStatus fun _ _ _ => rfl)
        (Manager.received_field Manager.clonepid fun _ _ _ => rfl)
        (Manager.received_pc rfl rfl rfl rfl rfl rfl)
    | handleAccept hpc hc =>
      -- the guard: a running command would have a positive pid
      have hr : p.mgr.childStatus ≠ .procRunning := fun hr => by
        obtain ⟨_, -, hpos⟩ := h.running hr
        omega
      exact ⟨h.running, h.idle, fun _ _ => hc, fun _ => hr, (by intro h; cases h)⟩
    | findFound hpc hf => exact h.launch (by rw [hpc]; rfl) rfl rfl (by rw [hpc]; rfl) rfl rfl
    | loadOut hpc ho => exact h.launch (by rw [hpc]; rfl) rfl rfl (by rw [hpc]; rfl) rfl rfl
    | loadErr hpc ho => exact h.launch (by rw [hpc]; rfl) rfl rfl (by rw [hpc]; rfl) rfl rfl
    -- the only child from here on: the guard has kept the list empty
    | @clone _ _ pid hpc hpid =>
      have hr := h.quiet (Or.inr (by rw [hpc]; rfl))
      have hpos : 0 < pid ∧ pid ∉ p.pids := by simpa [admits, hpid] using hadm
      simp only [childrenAfter, if_neg hpid, h.idle hr]
      exact ⟨fun _ => ⟨.alive, rfl, hpos.1⟩, (by simp), (by simp), (by rintro (h | h) <;> cases h),
        (by intro h; cases h)⟩
    | cloneFail hpc =>
      have hr := h.quiet (Or.inr (by rw [hpc]; rfl))
      exact ⟨fun hr' => absurd hr' hr, fun _ => h.idle hr,
        fun _ _ => show (-1 : Int) ≤ 0 by decide, (by rintro (h | h) <;> cases h),
        (by intro h; cases h)⟩
    -- `manager_destroy` looks at the status just before it kills
    | destroyRunning hpc hrun =>
      exact ⟨h.running, h.idle, fun hr => absurd hrun hr, (by rintro (h | h) <;> cases h),
        fun _ => hrun⟩
    | waitNone hpc => exact h.frame (by rw [hpc]; rfl) rfl rfl (WaitRet.plain _)
    | stopKill hpc => exact h.frame (by rw [hpc]; rfl) rfl rfl (StopRet.plain _)
    | stopIdle hpc => exact h.frame (by rw [hpc]; rfl) rfl rfl (StopRet.plain _)
    | sent hpc => exact h.frame (by rw [hpc]; rfl) rfl rfl (SendRet.plain _)
    -- all other steps leave the variables alone and go to plain points
    | _ => exact h.frame (by rw [‹p.mgr.pc = _›]; rfl) rfl rfl rfl

/-- What `stop_child` and `manager_destroy` kill. -/
theorem kill_own {pid : Int} (h : Core p) (hpc : p.mgr.pc.ownKill = true)
    (hstep : Proc.Step E p (.mgr (.kill pid)) p') :
    p.mgr.childStatus = .procRunning ∧ pid = p.mgr.clonepid := by
  cases hstep with
  | mgr hadm hm =>
    cases hm with
    | stopKill _ hrun => exact ⟨hrun, rfl⟩
    | destroyKill hpc' => exact ⟨h.killing (by rw [hpc']; rfl), rfl⟩
    | stopSignal hpc' => rw [hpc'] at hpc; cases hpc
    | throws hl =>
      cases (Pc.throwing_of_throws hl).2

theorem Core.of_reachable {fd : ℕ} (h : Machine.Reachable (Proc.step E) (Proc.start fd) p) :
    Core p :=
  h.invariant (fun _ _ _ hc hstep => hc.step (step_cases hstep)) (Core.start fd)

/-- **A manager signals only its own live child.** In every reachable state there is
at most one unreaped child; wherever the status is looked at it says whether there
is one, and then `clonepid` is its pid and positive; and what `stop_child` and
`manager_destroy` kill is an unreaped child. -/
theorem signals_own_child {fd : ℕ} (h : Machine.Reachable (Proc.step E) (Proc.start fd) p) :
    p.children.length ≤ 1 ∧
    (p.mgr.pc.entry = true → (p.mgr.childStatus = .procRunning ↔ p.children ≠ [])) ∧
    (p.mgr.childStatus = .procRunning →
      (∃ life, p.children = [(p.mgr.clonepid, life)]) ∧ 0 < p.mgr.clonepid) ∧
    ∀ pid p', p.mgr.pc.ownKill = true → p.step E (.mgr (.kill pid)) = some p' →
      0 < pid ∧ pid ∈ p.pids := by
  have hcore := Core.of_reachable h
  have hiff : p.mgr.childStatus = .procRunning ↔ p.children ≠ [] := by
    constructor
    · intro hr
      obtain ⟨life, hch, -⟩ := hcore.running hr
      simp [hch]
    · intro hne
      by_contra hr
      exact hne (hcore.idle hr)
  refine ⟨?_, fun _ => hiff, ?_, ?_⟩
  · by_cases hr : p.mgr.childStatus = .procRunning
    · obtain ⟨life, hch, -⟩ := hcore.running hr
      simp [hch]
    · simp [hcore.idle hr]
  · intro hr
    obtain ⟨life, hch, hpos⟩ := hcore.running hr
    exact ⟨⟨life, hch⟩, hpos⟩
  · intro pid p' hpc hstep
    obtain ⟨hrun, rfl⟩ : p.mgr.childStatus = .procRunning ∧ pid = p.mgr.clonepid :=
      kill_own hcore hpc (step_cases hstep)
    obtain ⟨life, hch, hpos⟩ := hcore.running hrun
    exact ⟨hpos, by simp [pids, hch]⟩

/-- The timer expires on `/bin/ls`: the manager is about to kill process 100. -/
def expireLabels : List Label := lsLabels ++ [.epollWait (.ready [7]), .tau]

theorem signals_own_child_expire :
    ∃ p, Machine.exec (Proc.step Proto3.env) (Proc.start 5) (expireLabels.map .mgr) = some p ∧
      p.mgr.pc.ownKill = true ∧ p.pids = [100] ∧ p.children.length ≤ 1 := by
  have hrun : (Machine.exec (Proc.step Proto3.env) (Proc.start 5) (expireLabels.map .mgr)).any
      (fun p => p.mgr.pc.ownKill && p.pids == [100]) = true := by decide +kernel
  obtain ⟨p, hp, hcheck⟩ := Machine.exec_of_any hrun
  simp only [Bool.and_eq_true, beq_iff_eq] at hcheck
  exact ⟨p, hp, hcheck.1, hcheck.2, (signals_own_child ⟨_, hp⟩).1⟩

end Proc
end Srun
