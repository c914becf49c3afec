import Srun.Framework.Potential
import Srun.Children

/-!
# The work of a manager

A manager has loops over what it is given: the events of a batch, the chunks that a `read`
returns, the entries of a directory, the children that `waitpid` reports, the pids of a STOP.
None of them goes on without being given more, and between two of them there are only a few
steps. `Pc.work` bounds the steps that are left until `epoll_wait` is called or the process
ends, and every step takes one off it, but for what it is given (`Step.work`). Hence the
bound for a whole run, `steps_le`.

One loop needs nothing to go on: that of `Config::fillRequest` over the environment keys, when
the first of them is there. Its rounds are counted apart (`envRounds`).
-/

namespace Srun

namespace Pc

/-- The most steps until `epoll_wait` or the end of the process, as long as nothing more is
given to the manager. -/
def work : Pc → ℕ
  | .epollCreate => 10
  | .epollAdd => 9
  | .waitChild .loop => 8
  | .waitChild (.destroy _) => 2
  | .argsRead .loop => 13
  | .argsRead (.destroy _) => 7
  | .clear .lock _ .loop => 12
  | .clear .unlink _ .loop => 11
  | .clear .unlock _ .loop => 10
  | .clear .rmdir _ .loop => 9
  | .clear .lock _ (.destroy _) => 6
  | .clear .unlink _ (.destroy _) => 5
  | .clear .unlock _ (.destroy _) => 4
  | .clear .rmdir _ (.destroy _) => 3
  | .loopCheck => 7
  | .stopCheck => 2
  | .stopChild .loop => 1
  | .epollWait => 0
  -- 24 for each event of the batch
  | .dispatch evs => 9 + 24 * evs.length
  | .receive _ evs | .timerEvent evs | .stopChild (.closed evs) => 10 + 24 * evs.length
  | .stopChild (.timer evs) | .disconnect evs => 11 + 24 * evs.length
  | .recv _ evs => 32 + 24 * evs.length
  | .handle pt _ evs =>
    24 * evs.length +
      match pt with
      | .entry => 31
      | .find => 30
      | .loadOut => 29
      | .loadErr => 28
      | .clone => 27
      | .leaf => 26
      | .memlimit => 25
      | .memswExists => 24
      | .memswlimit => 23
      | .procs => 22
      | .notify => 21
      | .lock => 20
      | .create => 19
      | .write => 18
      | .unlock => 17
      | .bindOut => 16
      | .bindErr => 15
      | .timer => 14
      | .settime => 13
      | .timerAdd => 12
      | .reply => 11
      | .unlockThrow => 6
  | .list pt _ evs =>
    24 * evs.length +
      match pt with
      | .lock => 13
      | .next => 12
      | .read _ => 13
      | .unlock => 11
      | .unlockThrow => 6
  -- 5 for each pid that is left
  | .stop pt procs evs =>
    24 * evs.length +
      match pt with
      | .next => 11 + 5 * procs.length
      | .lock => 15 + 5 * procs.tail.length
      | .check => 14 + 5 * procs.tail.length
      | .kill => 13 + 5 * procs.tail.length
      | .unlock => 12 + 5 * procs.tail.length
      | .unlockThrow => 6
  | .send _ .result => 6
  | .send _ .heartbeat => 10
  | .send _ (.reply evs) | .send _ (.badArgs evs) | .send _ (.started evs) => 10 + 24 * evs.length
  | .destroy .entry _ => 5
  | .destroy .kill _ => 4
  | .destroy .sleep _ => 3
  | .destroy .close _ => 1
  -- it is not left, and no round of it takes anything off
  | .spinning _ => 0
  | .gone _ => 0

end Pc

namespace Manager

variable {E : Env} {s s' : Manager} {l : Label}

/-- What a step is given: a return of `epoll_wait` with its events, a chunk, a directory
entry, a child, a signal, and the pids of a STOP message. -/
def supply (E : Env) (s : Manager) : Label → ℕ
  | .epollWait (.ready fds) => 1 + fds.length
  | .epollWait _ | .read (some _) | .readdir (.entry _) | .waitpid (some _) | .sigterm _ => 1
  | .read none =>
    match s.pc with
    | .recv data _ => (E.parse data).elim 0 (·.runlist.length)
    | _ => 0
  | _ => 0

/-- A round of the loop in `Config::fillRequest`. -/
def envRounds (s : Manager) : Label → ℕ
  | .tau => if s.pc matches .spinning _ then 1 else 0
  | _ => 0

/-- Clearing `clonepid` is work of four steps. -/
theorem work_clearEntry (k : WaitRet) :
    (s.clearEntry k).pc.work ≤ (Pc.waitChild k).work + 4 :=
  clearEntry_pc (motive := fun pc => pc.work ≤ (Pc.waitChild k).work + 4)
    (by cases k <;> exact Nat.le_refl _) (Nat.le_add_right _ _)

theorem work_reaped (st : WaitStatus) (k : WaitRet) :
    (s.reaped st k).pc.work ≤ (Pc.waitChild k).work + 5 :=
  reaped_pc (motive := fun pc => pc.work ≤ (Pc.waitChild k).work + 5)
    (by cases k <;> exact Nat.le_refl _) (by cases k <;> exact Nat.le_succ _)
    (Nat.le_add_right _ _)

/-- The next event of a batch, or the end of it. -/
theorem work_dispatch (evs : List Int) : (s.dispatch evs).work + 1 ≤ (Pc.dispatch evs).work := by
  cases evs with
  | nil => exact Nat.le_refl _
  | cons fd evs =>
    simp only [dispatch]
    split_ifs <;> simp only [Pc.work, List.length_cons] <;> omega

theorem work_loopCheck : s.loopCheck.work ≤ 6 :=
  loopCheck_pc (motive := fun pc => pc.work ≤ 6) (by decide) (fun _ _ _ => Nat.le_refl _)
    fun _ => by decide

theorem work_received {data : Bytes} {m : Message} {evs : List Int} :
    (received E s data m evs).pc.work ≤ 31 + 24 * evs.length + 5 * m.runlist.length := by
  refine received_pc
    (motive := fun pc => pc.work ≤ 31 + 24 * evs.length + 5 * m.runlist.length) ?_ ?_ ?_ ?_ ?_ ?_
  all_goals simp only [Pc.work]; omega

/-- Wherever an exception is thrown, there was as much work to do as `manager_destroy` is, or
the step was given something. -/
theorem work_throws (h : s.pc.throws l = true) : 6 ≤ s.pc.work + 24 * supply E s l := by
  generalize hpc : s.pc = pc at h
  unfold Pc.throws at h
  split at h
  case h_4 => rename_i m k; cases k <;> simp only [Pc.work] <;> omega
  case h_5 => rename_i m k _; cases k <;> simp only [Pc.work] <;> omega
  case h_2 => rename_i r; cases r <;> simp only [supply] <;> omega
  case h_15 => rename_i m k _ _; cases k <;> simp only [Pc.work] <;> omega
  case h_16 => cases h
  all_goals simp only [Pc.work]; omega

/-- **One step.** It takes one off the work, but for what it is given, and the rounds of the
loop that is not left. -/
theorem Step.work (hstep : Step E s l s') :
    s'.pc.work + 1 ≤ s.pc.work + (24 * supply E s l + envRounds s l) := by
  cases hstep with
  | sigterm => simp only [supply]; omega
  | throws hl => exact (work_throws hl).trans (Nat.add_le_add_left (Nat.le_add_right ..) _)
  | unlockThrow hpc =>
    generalize s.pc = pc at *
    unfold Pc.unlockThrow at hpc
    split at hpc
    case h_4 => cases hpc
    all_goals simp only [goto, raise, Pc.work]; omega
  | loopCheck hpc =>
    rw [hpc]
    exact (Nat.succ_le_succ work_loopCheck).trans (Nat.le_add_right _ _)
  | dispatch evs hpc =>
    rw [hpc]
    exact (work_dispatch evs).trans (Nat.le_add_right _ _)
  | @envRound added hpc =>
    -- a round for a step
    rw [envRounds, hpc]
    exact Nat.le_add_left ..
  | @received data evs m hpc hdata hm =>
    have hwork : (Manager.received E s data m evs).pc.work ≤ _ := work_received
    have hsupply : supply E s (.read none) = m.runlist.length := by
      simp only [supply, hpc, hm, Option.elim_some]
    rw [hsupply, hpc, Pc.work]
    omega
  | @reap k st hpc =>
    have := work_reaped (s := s) st k
    rw [hpc, supply]
    omega
  | @argsSurvive k hpc =>
    have := work_clearEntry (s := s) k
    rw [hpc]
    cases k <;> simp only [Pc.work] at this ⊢ <;> omega
  | @argsDie k hpc => rw [hpc]; cases k <;> simp only [goto, Pc.work] <;> omega
  | @waitNone k hpc =>
    rw [hpc]
    cases k <;> simp only [goto, WaitRet.pc, Pc.work] <;> omega
  | waitOther => simp only [supply]; omega
  | @clearLock _ k hpc | @clearUnlink _ k hpc | @clearUnlock _ k hpc | @clearRmdir _ k hpc =>
    rw [hpc]
    cases k <;> simp only [goto, Pc.work] <;> omega
  | @stopKill k hpc | @stopIdle k hpc =>
    rw [hpc]
    cases k <;> simp only [goto, StopRet.pc, Pc.work] <;> omega
  | @sent m k data hpc =>
    rw [hpc]
    cases k <;> simp only [goto, SendRet.pc, Pc.work, List.length_nil] <;> omega
  | @sigpipe m k data hpc =>
    rw [hpc]
    cases k <;> simp only [goto, Pc.work] <;> omega
  | @stopNext q procs evs hpc =>
    simp only [goto, hpc, Pc.work, List.length_cons, List.tail_cons]
    omega
  | _ =>
    simp only [goto, raise, ‹s.pc = _›, Pc.work, supply, List.length_nil]
    omega

/-- Where `loadRequest` returns there are no rounds. -/
theorem not_spinning_step (hload : ∀ r, E.loadRequest r ≠ none) (hstep : Step E s l s')
    (h : ∀ n, s.pc ≠ .spinning n) : ∀ n, s'.pc ≠ .spinning n := by
  intro n
  cases hstep with
  | sigterm | waitOther => exact h n
  | @received data evs m hpc =>
    unfold Manager.received
    cases hm : m.method with
    | exe =>
      cases hr : E.loadRequest m.getRequest with
      | none => exact absurd hr (hload _)
      | some r => exact Pc.noConfusion
    | _ => exact Pc.noConfusion
  | loopCheck hpc =>
    exact loopCheck_pc (motive := fun pc => pc ≠ .spinning n) Pc.noConfusion
      (fun _ _ _ => Pc.noConfusion) fun _ => Pc.noConfusion
  | dispatch evs hpc =>
    exact dispatch_pc (motive := fun pc => pc ≠ .spinning n) Pc.noConfusion
      (fun _ => Pc.noConfusion) (fun _ _ => Pc.noConfusion) (fun _ _ => Pc.noConfusion)
      fun _ => Pc.noConfusion
  | reap hpc =>
    exact reaped_pc (motive := fun pc => pc ≠ .spinning n) Pc.noConfusion Pc.noConfusion
      Pc.noConfusion
  | argsSurvive hpc =>
    exact clearEntry_pc (motive := fun pc => pc ≠ .spinning n) Pc.noConfusion Pc.noConfusion
  | @waitNone k hpc | @stopKill k hpc | @stopIdle k hpc | @sent m k data hpc =>
    cases k <;> exact Pc.noConfusion
  | envRound hpc => exact absurd hpc (h _)
  | _ => exact Pc.noConfusion

end Manager
end Srun
