import Srun.Sys

/-!
# STOP and the pids it signals

The STOP branch asks whether `tmpfs/<pid>` exists and then signals `pid`. The file
is removed after the command has been reaped, and a reaped pid may be anybody's. So
whom STOP signals depends on when the kernel gives the pid to a process that is no
command: harmless is a reuse after the file is gone and after every STOP that has
seen it has sent its signal (`Sys.spares`).

In runs with harmless reuse only, neither a registered pid nor one that STOP aims at
is a stranger's (`Sys.Tracked`).
-/

namespace Srun

namespace Pc

/-- The pid that the STOP branch is about to signal. -/
def aims : Pc → Option Int
  | .stop .kill procs _ => procs.head?.map (·.pid.toInt)
  | _ => none

end Pc

namespace Proc

variable {E : Env} {p p' : Proc} {ev : Event}

/-- STOP aims at a pid whose file it has just seen. -/
theorem Step.aims {pid : Int} (hstep : Proc.Step E p ev p') (h : p'.mgr.pc.aims = some pid) :
    p.mgr.pc.aims = some pid ∨ ev = .mgr (.regExists pid (some true)) := by
  cases hstep with
  | exit => exact Or.inl h
  | mgr hadm hm =>
    cases hm with
    | sigterm | waitOther => exact Or.inl h
    | stopFound hpc hpid =>
      obtain rfl := Option.some.inj (hpid.symm.trans h)
      exact Or.inr rfl
    | throws | unlockThrow => cases h
    | loopCheck =>
      have hnone : p.mgr.loopCheck.aims = none :=
        Manager.loopCheck_pc rfl (fun _ _ _ => rfl) fun _ => rfl
      cases hnone.symm.trans h
    | dispatch evs =>
      have hnone : (p.mgr.dispatch evs).aims = none :=
        Manager.dispatch_pc rfl (fun _ => rfl) (fun _ _ => rfl) (fun _ _ => rfl) fun _ => rfl
      cases hnone.symm.trans h
    | reap =>
      cases (Manager.reaped_pc (motive := fun pc => pc.aims = none) rfl rfl rfl).symm.trans h
    | argsSurvive =>
      cases (Manager.clearEntry_pc (motive := fun pc => pc.aims = none) rfl rfl).symm.trans h
    | received =>
      cases (Manager.received_pc (motive := fun pc => pc.aims = none) rfl rfl rfl rfl rfl
        rfl).symm.trans h
    | @waitNone k | @stopKill k | @stopIdle k | @sent m k => cases k <;> cases h
    | _ => cases h

/-- Every other signal is STOP's. -/
theorem kill_aims {pid : Int} (hpc : p.mgr.pc.ownKill = false)
    (hstep : Proc.Step E p (.mgr (.kill pid)) p') : p.mgr.pc.aims = some pid := by
  cases hstep with
  | mgr hadm hm =>
    cases hm with
    | stopKill hpc' | destroyKill hpc' => rw [hpc'] at hpc; cases hpc
    | stopSignal hpc' hpid => rw [hpc']; exact hpid
    | throws hl => cases (Pc.throwing_of_throws hl).2

/-- The file that a manager creates has the pid of its unreaped command. -/
theorem Step.regCreate_own {pid : Int} {ok : Bool}
    (hstep : Proc.Step E p (.mgr (.regCreate pid ok)) p') (hcore : Core p)
    (hlaunched : Launched p) : 0 < pid ∧ pid ∈ p.pids := by
  have hown : p.mgr.pc.setup = true → 0 < p.mgr.clonepid ∧ p.mgr.clonepid ∈ p.pids := by
    intro hs
    obtain ⟨life, hch, hpos⟩ := hcore.running (hlaunched hs)
    exact ⟨hpos, by simp [Proc.pids, hch]⟩
  cases hstep with
  | mgr hadm hm =>
    cases hm with
    | create hpc | createFail hpc => exact hown (by rw [hpc]; rfl)
    | throws hl => cases (Pc.throwing_of_throws hl).2

end Proc

namespace Sys

variable {E : Env} {s s' : Sys} {ev : SysEvent}

/-- The kernel gives no pid away whose file is there, or at which STOP aims. -/
def spares (s : Sys) : SysEvent → Bool
  | .fork _ pid | .spawn pid =>
    s.registry pid = none && s.procs.all (·.mgr.pc.aims ≠ some pid)
  | _ => true

/-- Who is signalled: whatever a STOP branch would signal now is the pid of an unreaped
command, or no process has it. -/
def SignalsCommands (E : Env) (s : Sys) : Prop :=
  ∀ (i : ℕ) (p p' : Proc) (pid : Int), s.procs[i]? = some p → p.mgr.pc.ownKill = false →
    p.step E (.mgr (.kill pid)) = some p' →
    0 < pid ∧ (s.free pid = true ∨ ∃ (j : ℕ) (q : Proc), s.procs[j]? = some q ∧ pid ∈ q.pids)

/-- The invariant: registered pids and pids that STOP aims at are no stranger's. -/
structure Tracked (s : Sys) : Prop where
  live : Live (fun p => p.Core ∧ p.Launched) s
  apart : Apart s
  files : ∀ pid, s.registry pid ≠ none → 0 < pid ∧ pid ∉ s.strangers
  aims : ∀ (i : ℕ) (p : Proc) (pid : Int), s.procs[i]? = some p → p.mgr.pc.aims = some pid →
    0 < pid ∧ pid ∉ s.strangers

theorem Tracked.start : Tracked start :=
  ⟨fun _ _ h => by simp [Sys.start] at h, .start, fun _ h => absurd rfl h,
    fun _ _ _ h => by simp [Sys.start] at h⟩

/-- A step that spares the pids in use preserves the invariant. -/
theorem Tracked.step (h : Tracked s) (hC : s.spares ev = true) (hstep : Step E s ev s') :
    Tracked s' := by
  refine ⟨h.live.step (fun fd => ⟨.start fd, .start fd⟩)
    (fun p e p' hI hp => ⟨hI.1.step hp, hI.2.step hI.1 hp⟩) hstep, h.apart.step hstep, ?_, ?_⟩
  · intro pid hreg
    cases hstep with
    | @proc i e p p' hi hadm hp =>
      rcases registryAfter_ne_none hreg with hreg | rfl
      · exact h.files pid hreg
      · obtain ⟨hcore, hlaunched⟩ := h.live i p hi hp.isGone
        obtain ⟨hpos, hmem⟩ := hp.regCreate_own hcore hlaunched
        exact ⟨hpos, h.apart.strangers i p pid hi hmem⟩
    -- a pid whose file is there is spared
    | @spawn c hpos hfree | @fork fd c hpos hfree =>
      obtain ⟨hp, hs⟩ := h.files pid hreg
      have hnone : s.registry c = none := by
        simp only [spares, Bool.and_eq_true, decide_eq_true_eq] at hC
        exact hC.1
      refine ⟨hp, fun hmem => (List.mem_cons.mp hmem).elim (fun heq => hreg ?_) hs⟩
      rw [heq]
      exact hnone
    | vanish => exact (h.files pid hreg).imp_right fun hs hmem => hs (List.mem_of_mem_erase hmem)
    | _ => exact h.files pid hreg
  · intro j q pid hj hq
    -- so is one that STOP has looked at
    have hspared : ∀ {c : Int}, (∀ q ∈ s.procs, q.mgr.pc.aims ≠ some c) →
        s.procs[j]? = some q → 0 < pid ∧ pid ∉ c :: s.strangers := by
      intro c hc hj
      obtain ⟨hp, hs⟩ := h.aims j q pid hj hq
      refine ⟨hp, fun hmem => (List.mem_cons.mp hmem).elim (fun heq => ?_) hs⟩
      exact hc q (List.mem_of_getElem? hj) (heq ▸ hq)
    cases hstep with
    | @fork fd c hpos hfree =>
      rcases getElem?_concat_cases hj with rfl | hj
      · cases hq
      · simp only [spares, Bool.and_eq_true, decide_eq_true_eq, List.all_eq_true] at hC
        exact hspared hC.2 hj
    | @proc i e p p' hi hadm hp =>
      rcases getElem?_set_cases hj with ⟨rfl, rfl⟩ | ⟨-, hj⟩
      · rcases hp.aims hq with hq | rfl
        · exact h.aims j p pid hi hq
        · -- the file has been seen
          refine h.files pid fun hnone => ?_
          simp [admits, hnone] at hadm
      · exact h.aims j q pid hj hq
    | @orphan i c st p hi hgone =>
      rcases getElem?_set_cases hj with ⟨rfl, rfl⟩ | ⟨-, hj⟩
      · exact h.aims j p pid hi hq
      · exact h.aims j q pid hj hq
    | @spawn c hpos hfree =>
      simp only [spares, Bool.and_eq_true, decide_eq_true_eq, List.all_eq_true] at hC
      exact hspared hC.2 hj
    | vanish =>
      exact (h.aims j q pid hj hq).imp_right fun hs hmem => hs (List.mem_of_mem_erase hmem)

theorem Tracked.signals (h : Tracked s) : SignalsCommands E s := by
  intro i p p' pid hi hown hkill
  obtain ⟨hpos, hs⟩ := h.aims i p pid hi (Proc.kill_aims hown (Proc.step_cases hkill))
  refine ⟨hpos, ?_⟩
  -- no stranger has it: a command has, or nobody
  by_cases hex : ∃ (j : ℕ) (q : Proc), s.procs[j]? = some q ∧ pid ∈ q.pids
  · exact Or.inr hex
  · exact Or.inl (free_iff.mpr ⟨hs, fun j q hj hq => hex ⟨j, q, hj, hq⟩⟩)

/-- **STOP signals commands only, while the kernel spares their pids.** In a run in
which no pid is given away whose file is there or at which STOP aims, every signal of a
STOP branch goes to an unreaped command, if to anybody. -/
theorem stop_signals_commands {evs : List SysEvent}
    (hC : Machine.StepsMeet (step E) (fun s ev => s.spares ev = true) start evs) :
    Machine.Always (step E) (SignalsCommands E) start evs :=
  Machine.always_of_stepsMeet (fun _ _ _ h hC hs => Tracked.step h hC (step_cases hs))
    (fun _ h => Tracked.signals h) Tracked.start hC

/-- A client asks to stop process 100: from `epoll_wait` up to the look at `tmpfs/100`. -/
def stopLabels : List Label :=
  Proc.receiveLabels ⟨[8, 4, 34, 2, 8, 100], by decide, by decide⟩ ++
    [.tau, .flock .sh, .regExists 100 (some true)]

/-- `/bin/ls` is stopped, and another process gets its pid after it has been reaped. -/
theorem stop_signals_commands_ls :
    Machine.Always (step Proto3.env) (SignalsCommands Proto3.env) start
      (.fork 5 50 :: steps 0 Proc.lsLabels ++ .fork 5 51 ::
        steps 1 (Proc.bootLabels ++ stopLabels ++ [.kill 100, .flock .un]) ++
        .proc 0 (.exit 100 (.signaled 15)) ::
        steps 0 (Proc.reapLabels 100 (.signaled 15)) ++ [.spawn 100]) :=
  stop_signals_commands (by decide +kernel)

/-- Between the look at `tmpfs/100` and the signal the command ends, is reaped, and its
pid goes to another process: this one is signalled. -/
theorem stop_signals_stranger :
    ¬ ∀ evs s, Machine.exec (step Proto3.env) start evs = some s →
      SignalsCommands Proto3.env s := by
  intro hcommands
  obtain ⟨s, hrun, hs⟩ := Machine.exec_of_any
    (show (Machine.exec (step Proto3.env) start
      (.fork 5 50 :: steps 0 Proc.lsLabels ++ .fork 5 51 ::
        steps 1 (Proc.bootLabels ++ stopLabels) ++ .proc 0 (.exit 100 (.exited 0)) ::
        steps 0 (Proc.reapLabels 100 (.exited 0)) ++ [.spawn 100])).any
      (fun s => decide (100 ∈ s.strangers) && s.procs[1]?.any fun p =>
        p.mgr.pc.ownKill == false &&
          (p.step Proto3.env (.mgr (.kill 100))).isSome) = true by decide +kernel)
  simp only [Bool.and_eq_true, Option.any_eq_true, beq_iff_eq, Option.isSome_iff_exists,
    decide_eq_true_eq] at hs
  obtain ⟨hstr, p, hp, hown, p', hkill⟩ := hs
  obtain ⟨-, hfree | ⟨j, q, hj, hq⟩⟩ := hcommands _ s hrun 1 p p' 100 hp hown hkill
  · exact (free_iff.mp hfree).1 hstr
  · have hapart : Apart s := Machine.Reachable.invariant
      (fun _ _ _ h hs => Apart.step h (step_cases hs)) Apart.start ⟨_, hrun⟩
    exact hapart.strangers j q 100 hj hq hstr

end Sys
end Srun
