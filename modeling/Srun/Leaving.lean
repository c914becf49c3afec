import Srun.Encoding
import Srun.Ending
import Srun.Progress

/-!
# The end of a manager

A manager whose client is gone, or that has been told to stop, leaves its loop when its
command has been reaped and both outputs are over. Nothing but the ends of the two outputs is
needed for this once the command has ended: `ends_of_leaving` bounds the steps that such a
manager still takes, provided that `epoll_wait` only returns when there is an output to
receive, and it says where the manager can be found when it takes no further one.

An output whose end of file can be reported is not over and has a read end in the epoll set;
`Bound` says that no other output is waited for. The bound comes from a potential with two
parts. The outputs that are not over count, except for one whose event is already in the batch
(`promised`); between two returns of `epoll_wait` there is a bounded amount of work.
-/

namespace Srun

/-- The stream is over, or its read end is open. An output of which neither is true is waited for
without an end: no event can come for it. -/
def Output.Bound (o : Output) : Prop := o.over = true ∨ o.pipefd0 ≠ -1

namespace Output

/-- Receiving closes the read end only with the stream. -/
theorem Bound.receive {o : Output} (h : o.Bound) (reads : List (Chunk × Int)) :
    (o.receive reads).1.Bound := by
  unfold Output.receive
  -- in every mode the object ends with its loop, or only `str` changes
  cases o.mode with
  | _ =>
    simp only
    split
    · exact Or.inl rfl
    · exact h

/-- At the end of file the stream is over. -/
theorem receive_nil (o : Output) :
    (o.receive []).1 = { o with «over» := true, pipefd0 := -1, redirectFd := -1 } := by
  unfold receive
  cases o.mode <;> rfl

/-- What `bind` leaves behind. -/
theorem bound_bind (o : Output) (fd : Int) (added : Bool) : (o.bind fd added).1.Bound := by
  by_cases hpipe : o.pipefd0 ≠ -1
  · -- the read end stays as it is
    have hsame : (o.bind fd added).1.pipefd0 = o.pipefd0 := by
      simp only [bind]
      split_ifs <;> rfl
    exact Or.inr (hsame ▸ hpipe)
  · rw [bind, if_neg hpipe]
    exact Or.inl rfl

end Output

namespace Pc

/-- The outputs are being set up, or the manager is on its way out: between `load` and `bind` an
output is neither over nor bound, and after an exception nothing is received any more. -/
def loose : Pc → Bool
  | .handle .entry _ _ | .handle .find _ _ | .handle .loadOut _ _ => false
  | .handle .timer _ _ | .handle .settime _ _ | .handle .timerAdd _ _ | .handle .reply _ _ => false
  | .handle _ _ _ => true
  | .waitChild (.destroy _) | .argsRead (.destroy _) | .clear _ _ (.destroy _) => true
  | .destroy _ _ | .gone _ => true
  | _ => false

/-- `err.bind` is called. -/
def bindingErr : Pc → Bool
  | .handle .bindErr _ _ => true
  | _ => false

/-- The points of the main loop and of the functions it calls, but for `recv_message`: where a
manager without a client can be found. -/
def departing : Pc → Bool
  | .waitChild _ | .argsRead _ | .clear _ _ _ | .loopCheck | .stopCheck | .epollWait => true
  | .stopChild .loop | .stopChild (.timer _) | .dispatch _ | .receive _ _ | .timerEvent _ => true
  | .destroy _ _ | .gone _ => true
  | _ => false

/-- The events of the batch that are still to be dispatched. -/
def pending : Pc → List Int
  | .dispatch evs | .receive _ evs | .timerEvent evs | .stopChild (.timer evs) => evs
  | _ => []

/-- A batch is being dispatched. -/
def batch : Pc → Bool
  | .dispatch _ | .receive _ _ | .timerEvent _ | .stopChild (.timer _) => true
  | _ => false

/-- The main loop after its checks, and the dispatch of its events. -/
def checked : Pc → Bool
  | .stopCheck | .stopChild _ | .epollWait | .dispatch _ | .receive _ _ | .timerEvent _ => true
  | _ => false

/-- The main loop between its checks and `epoll_wait`. -/
def waiting : Pc → Bool
  | .stopCheck | .stopChild .loop | .epollWait => true
  | _ => false

/-- How the process is about to end. -/
def exit : Pc → Option Exit
  | .waitChild (.destroy how) | .argsRead (.destroy how) | .clear _ _ (.destroy how) => some how
  | .destroy _ how | .gone how => some how
  | _ => none

end Pc

namespace Manager

/-- No output is waited for that has no read end. -/
structure Bound (s : Manager) : Prop where
  out : s.pc.loose = false → s.childStatus ≠ .noProc → s.out.Bound
  err : s.pc.loose = false → s.childStatus ≠ .noProc → s.err.Bound
  bindingErr : s.pc.bindingErr = true → s.out.Bound

variable {E : Env} {s s' : Manager}

/-- A step that leaves the outputs and the status alone preserves `Bound`, unless it ends the
setup. -/
theorem Bound.frame (h : Bound s) (hout : s'.out = s.out) (herr : s'.err = s.err)
    (hs : s'.childStatus = s.childStatus)
    (hloose : s'.pc.loose = false → s.pc.loose = false) (hb : s'.pc.bindingErr = false) :
    Bound s' where
  out hl hc := hout ▸ h.out (hloose hl) (hs ▸ hc)
  err hl hc := herr ▸ h.err (hloose hl) (hs ▸ hc)
  bindingErr hb' := by rw [hb] at hb'; cases hb'

/-- Where nothing is asked of the outputs. -/
theorem Bound.of_loose (hl : s'.pc.loose = true) (hb : s'.pc.bindingErr = false) : Bound s' where
  out hl' := by rw [hl] at hl'; cases hl'
  err hl' := by rw [hl] at hl'; cases hl'
  bindingErr hb' := by rw [hb] at hb'; cases hb'

/-- Clearing leads back into the loop, or on with the end. -/
theorem loose_reaped {st : WaitStatus} {k : WaitRet} :
    (s.reaped st k).pc.loose = (Pc.waitChild k).loose ∧
      (s.reaped st k).pc.bindingErr = false :=
  reaped_pc (motive := fun pc => pc.loose = (Pc.waitChild k).loose ∧ pc.bindingErr = false)
    (by cases k <;> exact ⟨rfl, rfl⟩) (by cases k <;> exact ⟨rfl, rfl⟩) ⟨rfl, rfl⟩

theorem loose_clearEntry {k : WaitRet} :
    (s.clearEntry k).pc.loose = (Pc.waitChild k).loose ∧
      (s.clearEntry k).pc.bindingErr = false :=
  clearEntry_pc (motive := fun pc => pc.loose = (Pc.waitChild k).loose ∧ pc.bindingErr = false)
    (by cases k <;> exact ⟨rfl, rfl⟩) ⟨rfl, rfl⟩

end Manager

namespace Proc

variable {E : Env} {p p' : Proc} {ev : Event}

open Manager (Bound)

/-- `Bound` is kept by every step. -/
theorem bound_step (hcore : Core p) (h : Bound p.mgr) (hstep : Proc.Step E p ev p') :
    Bound p'.mgr := by
  cases hstep with
  | exit => exact h
  | mgr hadm hm =>
    cases hm with
    | sigterm => exact ⟨h.out, h.err, h.bindingErr⟩
    -- an exception: the manager is on its way to `manager_destroy`
    | throws | unlockThrow | epollCreateFail | loadOutFail | loadErrFail | cloneFail | bindOutFail
    | bindErrFail | timerCreateFail =>
      exact .of_loose rfl rfl
    -- the points of the loop do not look at the outputs as they are set up
    | loopCheck hpc =>
      exact h.frame rfl rfl rfl (fun _ => by rw [hpc]; rfl)
        (Manager.loopCheck_pc (motive := fun pc => pc.bindingErr = false) rfl (fun _ _ _ => rfl)
          fun _ => rfl)
    | dispatch evs hpc =>
      exact h.frame rfl rfl rfl (fun _ => by rw [hpc]; rfl)
        (Manager.dispatch_pc (motive := fun pc => pc.bindingErr = false) rfl (fun _ => rfl)
          (fun _ _ => rfl) (fun _ _ => rfl) fun _ => rfl)
    | received hpc =>
      exact h.frame (Manager.received_field Manager.out fun _ _ _ => rfl)
        (Manager.received_field Manager.err fun _ _ _ => rfl)
        (Manager.received_field Manager.childStatus fun _ _ _ => rfl) (fun _ => by rw [hpc]; rfl)
        (Manager.received_pc (motive := fun pc => pc.bindingErr = false) rfl rfl rfl rfl rfl rfl)
    | @reap k st hpc =>
      -- what has been reaped was a command, so the outputs were set up before
      obtain ⟨hloose, hb⟩ :
          (p.mgr.reaped st k).pc.loose = (Pc.waitChild k).loose ∧
            (p.mgr.reaped st k).pc.bindingErr = false :=
        Manager.loose_reaped
      have hrun : p.mgr.childStatus ≠ .noProc := by
        rw [(hcore.mem_children (by simpa [admits] using hadm)).1]
        exact fun h => by cases h
      have hold : (Manager.reaped p.mgr st k).pc.loose = false → p.mgr.pc.loose = false := by
        rw [hpc, hloose]
        exact id
      refine ⟨fun hl _ => ?_, fun hl _ => ?_, fun hb' => by rw [hb] at hb'; cases hb'⟩
      · rw [Manager.reaped_field Manager.out fun _ _ _ _ => rfl]
        exact h.out (hold hl) hrun
      · rw [Manager.reaped_field Manager.err fun _ _ _ _ => rfl]
        exact h.err (hold hl) hrun
    | @argsSurvive k hpc =>
      obtain ⟨hloose, hb⟩ := Manager.loose_clearEntry (s := p.mgr) (k := k)
      -- `clear_clonepid` keeps to the side, loop or end, on which it was entered
      refine h.frame (Manager.clearEntry_field Manager.out fun _ _ => rfl)
        (Manager.clearEntry_field Manager.err fun _ _ => rfl)
        (Manager.clearEntry_field Manager.childStatus fun _ _ => rfl) (fun hl => ?_) hb
      rw [hloose] at hl
      rw [hpc]
      cases k <;> exact hl
    | @waitNone k hpc | @clearRmdir _ k hpc =>
      refine h.frame rfl rfl rfl (fun hl => ?_) (by cases k <;> rfl)
      rw [hpc]
      cases k <;> first | rfl | exact hl
    | @clearLock _ k hpc | @clearUnlink _ k hpc | @clearUnlock _ k hpc =>
      exact h.frame rfl rfl rfl (fun hl => by rw [hpc]; cases k <;> first | rfl | exact hl) rfl
    | waitOther => exact ⟨h.out, h.err, h.bindingErr⟩
    | @stopKill k hpc | @stopIdle k hpc =>
      exact h.frame rfl rfl rfl (fun _ => by rw [hpc]; rfl) (by cases k <;> rfl)
    | @sent m k data hpc =>
      exact h.frame rfl rfl rfl (fun _ => by rw [hpc]; rfl) (by cases k <;> rfl)
    -- `receive` ends the stream when it closes its read end
    | receiveOut reads hpc =>
      have hloose : p.mgr.pc.loose = false := by rw [hpc]; rfl
      exact ⟨fun _ hc => (h.out hloose hc).receive reads, fun _ hc => h.err hloose hc,
        fun hb => by cases hb⟩
    | receiveErr reads hpc =>
      have hloose : p.mgr.pc.loose = false := by rw [hpc]; rfl
      exact ⟨fun _ hc => h.out hloose hc, fun _ hc => (h.err hloose hc).receive reads,
        fun hb => by cases hb⟩
    -- the setup: `bind` makes good what `load` has left open
    | loadOut | loadErr | clone | leaf | memlimit | memlimitSkip | memswFound | memswMissing
    | memswlimit | memswlimitSkip | procs | notify | handleLock | create | createFail | write
    | writeFail | handleUnlock =>
      exact .of_loose rfl rfl
    | bindOut hpc ho =>
      -- `out.bind` has done its part, which is kept until `err.bind` has done the other
      have hbound : Output.Bound _ := ho ▸ Output.bound_bind p.mgr.out _ _
      exact ⟨fun hl => (by cases hl), fun hl => (by cases hl), fun _ => hbound⟩
    | bindErr hpc ho =>
      have hbound : Output.Bound _ := ho ▸ Output.bound_bind p.mgr.err _ _
      exact ⟨fun _ _ => h.bindingErr (by rw [hpc]; rfl), fun _ _ => hbound, fun hb => by cases hb⟩
    | argsDie | sigpipe | destroyRunning | destroyIdle | destroyKill | destroyClose
    | destroySleep => exact .of_loose rfl rfl
    | _ => exact h.frame rfl rfl rfl (fun _ => by rw [‹p.mgr.pc = _›]; rfl) rfl

theorem bound_of_reachable {fd : ℕ} (h : Machine.Reachable (Proc.step E) (Proc.start fd) p) :
    Core p ∧ Bound p.mgr :=
  h.invariant (I := fun p => Core p ∧ Bound p.mgr)
    (fun _ _ _ hc hstep => ⟨hc.1.step (step_cases hstep), bound_step hc.1 hc.2 (step_cases hstep)⟩)
    ⟨Core.start fd, fun _ hc => absurd rfl hc, fun _ hc => absurd rfl hc, fun hb => by cases hb⟩

end Proc

/-! ### The potential -/

namespace Manager

/-- The outputs that are not over. -/
def unfinished (s : Manager) : ℕ := (!s.out.over).toNat + (!s.err.over).toNat

/-- The event is one of an output that is not over. -/
def reports (s : Manager) (fd : Int) : Bool :=
  if fd = s.out.pipefd0 then !s.out.over else fd = s.err.pipefd0 && !s.err.over

/-- An output that is not over is received before the batch is at its end. -/
def promised (s : Manager) : Bool :=
  s.pc.pending.any s.reports ||
    match s.pc with
    | .receive isErr _ => if isErr then !s.err.over else !s.out.over
    | _ => false

theorem unfinished_le (s : Manager) : s.unfinished ≤ 2 := by
  unfold unfinished
  cases s.out.over <;> cases s.err.over <;> decide

theorem promised_dispatch {s : Manager} {evs : List Int} (hpc : s.pc = .dispatch evs) :
    s.promised = evs.any s.reports := by
  simp [promised, hpc, Pc.pending]

/-- On the way out there is no round of the loop that is not left. -/
theorem Step.work_of_departing {E : Env} {s s' : Manager} {l : Label} (hstep : Step E s l s')
    (h : s.pc.departing = true) : s'.pc.work + 1 ≤ s.pc.work + 24 * supply E s l := by
  -- the endless loop of `loadRequest` is not on the way out
  have hrounds : envRounds s l = 0 := by
    cases l with
    | tau =>
      rw [envRounds]
      split
      · next hpc =>
        rw [hpc] at h
        cases h
      · rfl
    | _ => rfl
  have hwork := hstep.work
  rwa [hrounds] at hwork

end Manager

namespace Proc

variable {E : Env} {p p' : Proc} {ev : Event}

/-- The manager is given nothing but the ends of its outputs: `epoll_wait` returns for an
output that is not over and not for the client, and what is received is the end of file. -/
def draining (p : Proc) : Event → Bool
  | .mgr (.epollWait (.ready fds)) =>
    -- `MAX_EVENTS`
    fds.length ≤ 20 && p.mgr.connection ∉ fds && fds.any p.mgr.reports
  | .mgr (.epollWait _) | .mgr (.sigterm _) => false
  | .mgr (.receive reads) => reads = []
  | _ => true

theorem Core.length_children (h : Core p) : p.children.length ≤ 1 := by
  by_cases hrun : p.mgr.childStatus = .procRunning
  · obtain ⟨life, hch, -⟩ := h.running hrun
    rw [hch]
    exact Nat.le_refl _
  · rw [h.idle hrun]
    exact Nat.zero_le _

/-- The potential. A batch is worth at most 20 events, and so an output more than all its work:
when the end of one is received, the next round of the loop is paid for. A child that is
reaped pays for `clear_clonepid`. -/
def rank (p : Proc) : ℕ :=
  490 * (p.mgr.unfinished - p.mgr.promised.toNat) + 6 * p.children.length + p.mgr.pc.work

/-- The client is gone or the manager has been told to stop, and the command has ended. The
fields say how far the manager has come with it: the loop is left at its next check (`emptied`),
and `epoll_wait` is called only while an output is not over (`waiting`). -/
structure Leaving (p : Proc) : Prop where
  core : Core p
  bound : Manager.Bound p.mgr
  ended : ∀ c ∈ p.children, c.2 ≠ .alive
  point : p.mgr.pc.departing = true
  told : p.mgr.connection = -1 ∨ p.mgr.processStop = true ∧ p.mgr.childStatus ≠ .noProc
  pending : p.mgr.connection ∉ p.mgr.pc.pending
  emptied : p.mgr.pc = .loopCheck → p.children = []
  checked : p.mgr.pc.checked = true → p.mgr.childStatus = .procExit
  waiting : p.mgr.pc.waiting = true → p.mgr.unfinished ≠ 0
  exit : ∀ how ∈ p.mgr.pc.exit, how = .exit0 ∨ how = .outOfRange

/-- What the checks of the main loop come to: the manager leaves, or an output is not over. -/
theorem Leaving.loopCheck (h : Leaving p) (hpc : p.mgr.pc = .loopCheck) :
    p.mgr.loopCheck = .destroy .entry .exit0 ∨
      p.mgr.loopCheck = .stopCheck ∧ p.mgr.childStatus = .procExit ∧ p.mgr.unfinished ≠ 0 := by
  -- no child is left at the check, so no command runs
  have hidle : p.mgr.childStatus ≠ .procRunning := fun hrun => by
    obtain ⟨life, hch, -⟩ := h.core.running hrun
    rw [h.emptied hpc] at hch
    cases hch
  unfold Manager.loopCheck
  by_cases hover : p.mgr.execOver = true
  · rw [if_pos hover, if_pos (h.told.imp_right And.left)]
    exact Or.inl rfl
  · rw [if_neg hover]
    by_cases hnone : p.mgr.childStatus = .noProc
    · -- without a command it is the client that is gone
      have hconn := h.told.resolve_right fun hstop => hstop.2 hnone
      rw [if_pos ⟨hnone, hconn⟩]
      exact Or.inl rfl
    · have hexit : p.mgr.childStatus = .procExit := by
        cases hc : p.mgr.childStatus <;> simp_all
      rw [if_neg fun hno => hnone hno.1]
      -- neither over nor without a command: an output is left
      refine Or.inr ⟨rfl, hexit, fun hzero => hover ?_⟩
      simp only [Manager.execOver, hexit, Bool.and_eq_true, decide_eq_true_eq]
      unfold Manager.unfinished at hzero
      cases ho : p.mgr.out.over <;> cases he : p.mgr.err.over <;> simp_all

/-- A step that leaves the children alone. -/
theorem Leaving.frame (h : Leaving p) {m : Manager} {hi : History}
    (hcore : Core { mgr := m, children := p.children, hist := hi }) (hbound : Manager.Bound m)
    (hpoint : m.pc.departing = true)
    (htold : m.connection = -1 ∨ m.processStop = true ∧ m.childStatus ≠ .noProc)
    (hpending : m.connection ∉ m.pc.pending) (hempty : m.pc = .loopCheck → p.children = [])
    (hchecked : m.pc.checked = true → m.childStatus = .procExit)
    (hwaiting : m.pc.waiting = true → m.unfinished ≠ 0)
    (hexit : ∀ how ∈ m.pc.exit, how = .exit0 ∨ how = .outOfRange) :
    Leaving { mgr := m, children := p.children, hist := hi } :=
  ⟨hcore, hbound, h.ended, hpoint, htold, hpending, hempty, hchecked, hwaiting, hexit⟩

/-- A step after which no more is waited for. -/
theorem rank_of_waited {m : Manager} {hi : History}
    (hwaited : m.unfinished - m.promised.toNat ≤ p.mgr.unfinished - p.mgr.promised.toNat)
    (hwork : m.pc.work + 1 ≤ p.mgr.pc.work) :
    rank { mgr := m, children := p.children, hist := hi } + 1 ≤ rank p := by
  have := Nat.mul_le_mul_left 490 hwaited
  simp only [rank]
  omega

/-- A step that leaves the outputs and what is promised alone. -/
theorem rank_lt {m : Manager} {hi : History} (hout : m.out = p.mgr.out)
    (herr : m.err = p.mgr.err) (hpromised : m.promised = p.mgr.promised)
    (hwork : m.pc.work + 1 ≤ p.mgr.pc.work) :
    rank { mgr := m, children := p.children, hist := hi } + 1 ≤ rank p := by
  refine rank_of_waited ?_ hwork
  rw [hpromised, Manager.unfinished, hout, herr, Manager.unfinished]

/-- A batch with an output that is not over: one less counts, which is worth the batch. -/
theorem rank_of_batch {m : Manager} {hi : History} {evs : List Int} (hpc : m.pc = .dispatch evs)
    (hlen : evs.length ≤ 20) (hout : m.out = p.mgr.out) (herr : m.err = p.mgr.err)
    (hopen : p.mgr.unfinished ≠ 0) (hbefore : p.mgr.promised = false)
    (hpromised : m.promised = true) :
    rank { mgr := m, children := p.children, hist := hi } + 1 ≤ rank p := by
  have hunfinished : m.unfinished = p.mgr.unfinished := by
    rw [Manager.unfinished, hout, herr, Manager.unfinished]
  simp only [rank, hunfinished, hpromised, hbefore, hpc, Pc.work, Bool.toNat_true,
    Bool.toNat_false]
  omega

/-- Away from a batch there are no events, and nothing is promised. -/
theorem of_batch {s : Manager} (h : s.pc.batch = false) :
    s.pc.pending = [] ∧ s.promised = false := by
  unfold Manager.promised
  cases hpc : s.pc with
  | dispatch | receive | timerEvent => rw [hpc] at h; cases h
  | stopChild k => cases k <;> first | exact ⟨rfl, rfl⟩ | (rw [hpc] at h; cases h)
  | _ => exact ⟨rfl, rfl⟩

/-- The next event of the batch; what is promised is received, or still in the batch. -/
theorem Leaving.dispatch (h : Leaving p) {evs : List Int} (hpc : p.mgr.pc = .dispatch evs) :
    (p.mgr.dispatch evs).departing = true ∧ (p.mgr.dispatch evs).waiting = false ∧
      (p.mgr.dispatch evs).exit = none ∧ p.mgr.dispatch evs ≠ .loopCheck ∧
      (∀ fd ∈ (p.mgr.dispatch evs).pending, fd ∈ evs) ∧
      (p.mgr.goto (p.mgr.dispatch evs)).promised = p.mgr.promised := by
  rw [Manager.promised_dispatch hpc]
  cases evs with
  | nil =>
    exact ⟨rfl, rfl, rfl, fun hno => (by cases hno), fun _ hmem => (by cases hmem), rfl⟩
  | cons fd evs =>
    -- the connection is not in the batch, so no event is the client's
    have hfd : fd ≠ p.mgr.connection := by
      have hpending := h.pending
      rw [hpc] at hpending
      exact fun heq => hpending (heq ▸ List.mem_cons_self)
    have htail : ∀ fd' ∈ evs, fd' ∈ fd :: evs := fun _ => List.mem_cons_of_mem fd
    simp only [Manager.dispatch, if_neg hfd, List.any_cons]
    split_ifs with hout herr htimer
    · refine ⟨rfl, rfl, rfl, fun hno => (by cases hno), htail, ?_⟩
      rw [show p.mgr.reports fd = !p.mgr.out.over from if_pos hout, Bool.or_comm]
      rfl
    · refine ⟨rfl, rfl, rfl, fun hno => (by cases hno), htail, ?_⟩
      rw [Manager.reports, if_neg hout, decide_eq_true herr, Bool.true_and, Bool.or_comm]
      rfl
    -- the event of the timer, and events of nothing
    · refine ⟨rfl, rfl, rfl, fun hno => (by cases hno), htail, ?_⟩
      rw [Manager.reports, if_neg hout, decide_eq_false herr, Bool.false_and, Bool.false_or]
      exact Bool.or_false _
    · refine ⟨rfl, rfl, rfl, fun hno => (by cases hno), htail, ?_⟩
      rw [Manager.reports, if_neg hout, decide_eq_false herr, Bool.false_and, Bool.false_or]
      -- nothing is promised by either
      exact Bool.or_false _

/-- What has been promised for the other output is still promised when one is over. -/
theorem waited_le {s m : Manager} {evs : List Int} (hpc : m.pc = .dispatch evs)
    (hunfinished : m.unfinished ≤ s.unfinished)
    (hpromised : s.promised = true → m.unfinished < s.unfinished ∨ evs.any m.reports = true) :
    m.unfinished - m.promised.toNat ≤ s.unfinished - s.promised.toNat := by
  rw [Manager.promised_dispatch hpc]
  cases hs : s.promised with
  -- what was not promised before can only be fewer
  | false => exact (Nat.sub_le _ _).trans hunfinished
  | true =>
    rcases hpromised hs with hlt | hany
    · have := Bool.toNat_le (evs.any m.reports)
      rw [Bool.toNat_true]
      omega
    · rw [hany]
      exact Nat.sub_le_sub_right hunfinished _

/-- Standard output is at its end. -/
theorem Leaving.receiveOut (h : Leaving p) {evs : List Int} (hpc : p.mgr.pc = .receive false evs)
    {m : Manager} (hm : m = { p.mgr with out := (p.mgr.out.receive []).1, pc := .dispatch evs }) :
    m.unfinished - m.promised.toNat ≤ p.mgr.unfinished - p.mgr.promised.toNat := by
  have hexit := h.checked (by rw [hpc]; rfl)
  -- the command has ended, so standard error is bound
  have herr := h.bound.err (by rw [hpc]; rfl) (by rw [hexit]; exact fun hno => by cases hno)
  subst hm
  refine waited_le rfl ?_ fun hpromised => ?_
  · simp only [Manager.unfinished, Output.receive_nil]
    exact Nat.add_le_add_right (Nat.zero_le _) _
  · cases hover : p.mgr.out.over with
    -- the stream that was not over is over now
    | false =>
      refine Or.inl ?_
      simp only [Manager.unfinished, Output.receive_nil, hover, Bool.not_true, Bool.not_false,
        Bool.toNat_false, Bool.toNat_true]
      omega
    | true =>
      -- the promise is about the other output, whose event is still in the batch
      have hany : evs.any p.mgr.reports = true := by
        simpa [Manager.promised, hpc, hover, Pc.pending] using hpromised
      refine Or.inr ?_
      obtain ⟨fd, hfd, hreports⟩ := List.any_eq_true.mp hany
      refine List.any_eq_true.mpr ⟨fd, hfd, ?_⟩
      unfold Manager.reports at hreports ⊢
      split at hreports
      · rw [hover] at hreports
        cases hreports
      · obtain ⟨heq, hopen⟩ := Bool.and_eq_true_iff.mp hreports
        have hne : fd ≠ -1 := fun hno =>
          herr.elim (fun hover' => by rw [hover'] at hopen; cases hopen)
            fun hpipe => hpipe (hno ▸ (of_decide_eq_true heq).symm)
        rw [Output.receive_nil, if_neg hne]
        exact hreports

/-- Standard error is at its end. -/
theorem receiveErr_le {evs : List Int} (hpc : p.mgr.pc = .receive true evs)
    {m : Manager} (hm : m = { p.mgr with err := (p.mgr.err.receive []).1, pc := .dispatch evs }) :
    m.unfinished - m.promised.toNat ≤ p.mgr.unfinished - p.mgr.promised.toNat := by
  subst hm
  refine waited_le rfl ?_ fun hpromised => ?_
  · simp only [Manager.unfinished, Output.receive_nil]
    exact Nat.add_le_add_left (Nat.zero_le _) _
  · cases hover : p.mgr.err.over with
    | false =>
      -- one stream less
      refine Or.inl ?_
      simp only [Manager.unfinished, Output.receive_nil, hover, Bool.not_true, Bool.not_false,
        Bool.toNat_false, Bool.toNat_true]
      omega
    | true =>
      -- the promise is about standard output, whose event is still in the batch
      have hany : evs.any p.mgr.reports = true := by
        simpa [Manager.promised, hpc, hover, Pc.pending] using hpromised
      refine Or.inr ?_
      obtain ⟨fd, hfd, hreports⟩ := List.any_eq_true.mp hany
      refine List.any_eq_true.mpr ⟨fd, hfd, ?_⟩
      unfold Manager.reports at hreports ⊢
      split at hreports
      · next heq => exact (if_pos heq).trans hreports
      · rw [hover, Bool.not_true, Bool.and_false] at hreports
        cases hreports

/-- `epoll_wait` has returned events. -/
theorem epollReady_pc {fds : List Int} (hpc : p.mgr.pc = .epollWait)
    (h : p.step E (.mgr (.epollWait (.ready fds))) = some p') : p'.mgr.pc = .dispatch fds := by
  simp only [Proc.step, admits, if_true, Manager.step, Manager.codeStep, hpc, Manager.managerStart,
    Manager.epollReturn, Option.map_some, Option.some.injEq] at h
  rw [← h]
  rfl

/-- A step between two points away from the batches, on which only the work depends. -/
theorem Leaving.move (h : Leaving p) {m : Manager} {hi : History}
    (hcore : Core { mgr := m, children := p.children, hist := hi }) (hbound : Manager.Bound m)
    (hout : m.out = p.mgr.out) (herr : m.err = p.mgr.err)
    (hvars : m.connection = p.mgr.connection ∧ m.processStop = p.mgr.processStop ∧
      m.childStatus = p.mgr.childStatus)
    (hpoint : m.pc.departing = true) (hbatch : p.mgr.pc.batch = false ∧ m.pc.batch = false)
    (hempty : m.pc = .loopCheck → p.children = [])
    (hchecked : m.pc.checked = true → p.mgr.childStatus = .procExit)
    (hwaiting : m.pc.waiting = true → p.mgr.unfinished ≠ 0)
    (hexit : ∀ how ∈ m.pc.exit, how = .exit0 ∨ how = .outOfRange)
    (hwork : m.pc.work + 1 ≤ p.mgr.pc.work) :
    Leaving { mgr := m, children := p.children, hist := hi } ∧
      rank { mgr := m, children := p.children, hist := hi } + 1 ≤ rank p := by
  obtain ⟨hconn, hstop, hstatus⟩ := hvars
  -- the outputs are the same, and so is what is waited for
  have hunfinished : m.unfinished = p.mgr.unfinished := by
    rw [Manager.unfinished, hout, herr, Manager.unfinished]
  constructor
  · refine h.frame hcore hbound hpoint ?_ ?_ hempty (fun hc => hstatus.trans (hchecked hc))
      (fun hw => hunfinished ▸ hwaiting hw) hexit
    · rw [hconn, hstop, hstatus]
      exact h.told
    · rw [(of_batch hbatch.2).1]
      exact List.not_mem_nil
  · refine rank_lt hout herr ?_ hwork
    rw [(of_batch hbatch.1).2, (of_batch hbatch.2).2]

/-- Where clearing leads to. -/
theorem clearEntry_points (s : Manager) (k : WaitRet) :
    (s.clearEntry k).pc.departing = true ∧ (s.clearEntry k).pc.batch = false ∧
      (s.clearEntry k).pc ≠ .loopCheck ∧ (s.clearEntry k).pc.checked = false ∧
      (s.clearEntry k).pc.waiting = false ∧ (s.clearEntry k).pc.exit = (Pc.waitChild k).exit :=
  Manager.clearEntry_pc
    (motive := fun pc => pc.departing = true ∧ pc.batch = false ∧ pc ≠ .loopCheck ∧
      pc.checked = false ∧ pc.waiting = false ∧ pc.exit = (Pc.waitChild k).exit)
    ⟨rfl, rfl, fun hno => (by cases hno), rfl, rfl, by cases k <;> rfl⟩
    ⟨rfl, rfl, fun hno => (by cases hno), rfl, rfl, rfl⟩

theorem reaped_points (s : Manager) (st : WaitStatus) (k : WaitRet) :
    (s.reaped st k).pc.departing = true ∧ (s.reaped st k).pc.batch = false ∧
      (s.reaped st k).pc ≠ .loopCheck ∧ (s.reaped st k).pc.checked = false ∧
      (s.reaped st k).pc.waiting = false ∧ (s.reaped st k).pc.exit = (Pc.waitChild k).exit :=
  Manager.reaped_pc
    (motive := fun pc => pc.departing = true ∧ pc.batch = false ∧ pc ≠ .loopCheck ∧
      pc.checked = false ∧ pc.waiting = false ∧ pc.exit = (Pc.waitChild k).exit)
    ⟨rfl, rfl, fun hno => (by cases hno), rfl, rfl, by cases k <;> rfl⟩
    ⟨rfl, rfl, fun hno => (by cases hno), rfl, rfl, by cases k <;> rfl⟩
    ⟨rfl, rfl, fun hno => (by cases hno), rfl, rfl, rfl⟩

/-- A step after which the manager is to leave as before, and is closer to it. -/
def Closer (p p' : Proc) : Prop := Leaving p' ∧ rank p' + 1 ≤ rank p

/-- Where a batch is dispatched, nothing is asked but that its command has been reaped. -/
theorem points_of_batch {pc : Pc} (h : pc.batch = true) :
    pc.departing = true ∧ pc ≠ .loopCheck ∧ pc.waiting = false ∧ pc.exit = none := by
  cases pc with
  | dispatch | receive | timerEvent => exact ⟨rfl, Pc.noConfusion, rfl, rfl⟩
  | stopChild k => cases k <;> first | exact ⟨rfl, Pc.noConfusion, rfl, rfl⟩ | cases h
  | _ => cases h

/-- A step in the middle of a batch. -/
theorem Leaving.inBatch (h : Leaving p) {m : Manager} {hi : History}
    (hcore : Core { mgr := m, children := p.children, hist := hi }) (hbound : Manager.Bound m)
    (hvars : m.connection = p.mgr.connection ∧ m.processStop = p.mgr.processStop ∧
      m.childStatus = p.mgr.childStatus)
    (hchecked : p.mgr.pc.checked = true) (hbatch : m.pc.batch = true)
    (hpending : ∀ fd ∈ m.pc.pending, fd ∈ p.mgr.pc.pending)
    (hrank : rank { mgr := m, children := p.children, hist := hi } + 1 ≤ rank p) :
    Closer p { mgr := m, children := p.children, hist := hi } := by
  obtain ⟨hconn, hstop, hstatus⟩ := hvars
  obtain ⟨hpoint, hempty, hwaiting, hexit⟩ := points_of_batch hbatch
  -- neither the variables nor the phase change, and what is in the batch was in it
  refine ⟨h.frame hcore hbound hpoint ?_ (fun hmem => ?_) (fun hno => absurd hno hempty)
    (fun _ => hstatus.trans (h.checked hchecked)) (fun hno => ?_) fun how hhow => ?_, hrank⟩
  · rw [hconn, hstop, hstatus]
    exact h.told
  · exact h.pending (hpending _ (hconn ▸ hmem))
  · rw [hwaiting] at hno
    cases hno
  · rw [hexit] at hhow
    cases hhow

/-- `epoll_wait` has returned for an output that is not over. -/
theorem Leaving.reported (h : Leaving p) {fds : List Int} {hi : History}
    (hpc : p.mgr.pc = .epollWait) (hdrain : draining p (.mgr (.epollWait (.ready fds))) = true)
    (hcore : Core { mgr := p.mgr.goto (.dispatch fds), children := p.children, hist := hi })
    (hbound : Manager.Bound (p.mgr.goto (.dispatch fds))) :
    Closer p { mgr := p.mgr.goto (.dispatch fds), children := p.children, hist := hi } := by
  simp only [draining, Bool.and_eq_true, decide_eq_true_eq] at hdrain
  obtain ⟨⟨hlen, hconn⟩, hreports⟩ := hdrain
  -- the loop came here because an output was not over
  have hopen := h.waiting (by rw [hpc]; rfl)
  exact ⟨h.frame hcore hbound rfl h.told hconn (fun hno => by cases hno)
    (fun _ => h.checked (by rw [hpc]; rfl)) (fun hno => by cases hno)
    (fun how hhow => by cases hhow),
    rank_of_batch rfl hlen rfl rfl hopen (of_batch (by rw [hpc]; rfl)).2
      ((Manager.promised_dispatch rfl).trans hreports)⟩

/-- The next event of the batch, or the end of it. -/
theorem Leaving.dispatched (h : Leaving p) {evs : List Int} {hi : History}
    (hpc : p.mgr.pc = .dispatch evs)
    (hcore : Core { mgr := p.mgr.goto (p.mgr.dispatch evs), children := p.children, hist := hi })
    (hbound : Manager.Bound (p.mgr.goto (p.mgr.dispatch evs)))
    (hwork : (p.mgr.dispatch evs).work + 1 ≤ p.mgr.pc.work) :
    Closer p { mgr := p.mgr.goto (p.mgr.dispatch evs), children := p.children, hist := hi } := by
  -- what the event leads to, and that a promise stays one
  obtain ⟨hleaving, hwaiting, hexit, hempty, hpending, hpromised⟩ := h.dispatch hpc
  have hold := h.pending
  rw [hpc] at hold
  refine ⟨h.frame hcore hbound hleaving h.told (fun hmem => hold (hpending _ hmem))
    (fun hno => absurd hno hempty) (fun _ => h.checked (by rw [hpc]; rfl))
    (fun hno => ?_) fun how hhow => ?_, rank_lt rfl rfl hpromised hwork⟩
  · rw [Manager.goto, hwaiting] at hno
    cases hno
  · rw [Manager.goto, hexit] at hhow
    cases hhow

/-- `waitpid` has nothing to report: no child is left, since one that is there has ended. -/
theorem Leaving.waited (h : Leaving p) {k : WaitRet} {hi : History}
    (hpc : p.mgr.pc = .waitChild k) (hadm : p.admits (.waitpid none) = true)
    (hcore : Core { mgr := p.mgr.goto k.pc, children := p.children, hist := hi })
    (hbound : Manager.Bound (p.mgr.goto k.pc)) (hwork : k.pc.work + 1 ≤ p.mgr.pc.work) :
    Closer p { mgr := p.mgr.goto k.pc, children := p.children, hist := hi } := by
  -- the kernel has nothing to report only where all children are alive
  have hnone : p.children = [] := by
    refine List.eq_nil_iff_forall_not_mem.mpr fun c hc => h.ended c hc ?_
    exact of_decide_eq_true (List.all_eq_true.mp hadm c hc)
  have hexit := h.exit
  rw [hpc] at hexit
  refine h.move hcore hbound rfl rfl ⟨rfl, rfl, rfl⟩ ?_ ⟨by rw [hpc]; rfl, ?_⟩
    (fun _ => hnone) ?_ ?_ ?_ hwork
  · cases k <;> rfl
  · cases k <;> rfl
  · cases k <;> exact fun hno => by cases hno
  · cases k <;> exact fun hno => by cases hno
  -- of `manager_destroy`, which goes on as it has begun
  · cases k
    · exact fun how hhow => by cases hhow
    · exact hexit

/-- The command is reaped, which is a child less. -/
theorem Leaving.reap (h : Leaving p) {k : WaitRet} {st : WaitStatus} {hi : History}
    (hpc : p.mgr.pc = .waitChild k) (hmem : (p.mgr.clonepid, Life.zombie st) ∈ p.children)
    {cs : List (Int × Life)} (hcs : cs = p.children.erase (p.mgr.clonepid, .zombie st))
    (hcore : Core { mgr := p.mgr.reaped st k, children := cs, hist := hi })
    (hbound : Manager.Bound (p.mgr.reaped st k)) :
    Closer p { mgr := p.mgr.reaped st k, children := cs, hist := hi } := by
  subst hcs
  have hstatus : (p.mgr.reaped st k).childStatus = .procExit := reaped_childStatus
  obtain ⟨hleaving, hbatch, hempty, hchecked, hwaiting, hexit'⟩ := reaped_points p.mgr st k
  have hexit := h.exit
  rw [hpc] at hexit
  refine ⟨⟨hcore, hbound, fun c hc => h.ended c (List.mem_of_mem_erase hc), hleaving, ?_, ?_,
    fun hno => absurd hno hempty, fun _ => hstatus, fun hno => ?_, fun how hhow => ?_⟩, ?_⟩
  -- the command has been there, which counts for a manager that has been told to stop
  · rw [hstatus, Manager.reaped_field Manager.connection fun _ _ _ _ => rfl,
      Manager.reaped_field Manager.processStop fun _ _ _ _ => rfl]
    exact h.told.imp_right fun hstop => ⟨hstop.1, fun hno => by cases hno⟩
  · rw [(of_batch hbatch).1]
    exact List.not_mem_nil
  · rw [hwaiting] at hno
    cases hno
  · exact hexit how (hexit' ▸ hhow)
  · -- the work of clearing is worth less than the child
    have hlen := List.length_erase_of_mem hmem
    have hpos := List.length_pos_of_mem hmem
    have hwork := Manager.work_reaped (s := p.mgr) st k
    have hpromised : p.mgr.promised = false := (of_batch (by rw [hpc]; rfl)).2
    have hunfinished : (p.mgr.reaped st k).unfinished = p.mgr.unfinished :=
      Manager.reaped_field Manager.unfinished fun _ _ _ _ => rfl
    simp only [rank, hpromised, (of_batch hbatch).2, hunfinished, hpc]
    omega

/-- The log line has been written, and `clear_clonepid` is entered. -/
theorem Leaving.logged (h : Leaving p) {k : WaitRet} {hi : History}
    (hpc : p.mgr.pc = .argsRead k)
    (hcore : Core { mgr := p.mgr.clearEntry k, children := p.children, hist := hi })
    (hbound : Manager.Bound (p.mgr.clearEntry k))
    (hwork : (p.mgr.clearEntry k).pc.work + 1 ≤ p.mgr.pc.work) :
    Closer p { mgr := p.mgr.clearEntry k, children := p.children, hist := hi } := by
  obtain ⟨hleaving, hbatch, hempty, hchecked, hwaiting, hexit⟩ := clearEntry_points p.mgr k
  have hsame : (Pc.waitChild k).exit = p.mgr.pc.exit := by rw [hpc]; cases k <;> rfl
  refine h.move hcore hbound (Manager.clearEntry_field Manager.out fun _ _ => rfl)
    (Manager.clearEntry_field Manager.err fun _ _ => rfl)
    ⟨Manager.clearEntry_field Manager.connection fun _ _ => rfl,
      Manager.clearEntry_field Manager.processStop fun _ _ => rfl,
      Manager.clearEntry_field Manager.childStatus fun _ _ => rfl⟩
    hleaving ⟨by rw [hpc]; rfl, hbatch⟩ (fun hno => absurd hno hempty)
    (fun hno => ?_) (fun hno => ?_) (fun how hhow => h.exit how (by rwa [hexit, hsame] at hhow))
    hwork
  · rw [hchecked] at hno
    cases hno
  · rw [hwaiting] at hno
    cases hno

/-- `stop_child` returns; the command has been reaped. -/
theorem Leaving.stopReturn (h : Leaving p) {k : StopRet} {hi : History}
    (hpc : p.mgr.pc = .stopChild k)
    (hcore : Core { mgr := p.mgr.goto k.pc, children := p.children, hist := hi })
    (hbound : Manager.Bound (p.mgr.goto k.pc)) (hwork : k.pc.work + 1 ≤ p.mgr.pc.work) :
    Closer p { mgr := p.mgr.goto k.pc, children := p.children, hist := hi } := by
  have hchecked : p.mgr.pc.checked = true := by rw [hpc]; rfl
  have hpoint := h.point
  cases k with
  | loop =>
    -- the loop goes on to `epoll_wait`, where an output is missing as before
    exact h.move hcore hbound rfl rfl ⟨rfl, rfl, rfl⟩ rfl ⟨by rw [hpc]; rfl, rfl⟩
      (fun hno => by cases hno) (fun _ => h.checked hchecked)
      (fun _ => h.waiting (by rw [hpc]; rfl)) (fun how hhow => by cases hhow) hwork
  | closed evs =>
    -- the client is gone, and with it the branch that calls `stop_child`
    rw [hpc] at hpoint
    cases hpoint
  | timer evs =>
    refine h.inBatch hcore hbound ⟨rfl, rfl, rfl⟩ hchecked rfl (by rw [hpc]; exact fun _ => id)
      (rank_lt rfl rfl ?_ hwork)
    simp [Manager.promised, hpc, Pc.pending, StopRet.pc]
    rfl

/-- **One step.** A manager that is to leave stays one, and the potential goes down. -/
theorem Leaving.step (h : Leaving p) (hdrain : draining p ev = true)
    (hexec : p.step E ev = some p') : Closer p p' := by
  have hstep := step_cases hexec
  have hcore := h.core.step hstep
  have hbound := bound_step h.core h.bound hstep
  have hpoint := h.point
  have hexit := h.exit
  cases hstep with
  -- the command has ended already
  | exit hc => exact absurd rfl (h.ended _ hc)
  | @mgr l m hadm hm =>
    have hwork := hm.work_of_departing hpoint
    cases hm with
    -- nothing but the ends of the outputs is given
    | sigterm | epollEintr | heartbeat | epollIdle => cases hdrain
    | throws hl =>
      -- of the points at which something is thrown only `epoll_wait` is in question
      have hpc : p.mgr.pc = .epollWait := by
        cases hpc : p.mgr.pc <;> rw [hpc] at hl hpoint <;>
          first | rfl | cases hl | cases hpoint
      rw [hpc] at hl
      cases l with
      | epollWait r =>
        cases r with
        | ready fds => cases epollReady_pc hpc hexec
        | _ => cases hdrain
      | _ => cases hl
    | unlockThrow hpc =>
      cases hpc' : p.mgr.pc <;> rw [hpc'] at hpc hpoint <;>
        first | cases hpc | cases hpoint
    | loopCheck hpc =>
      -- either the way out or on to `stopCheck`, with an output that is not over
      have hbatch : p.mgr.pc.batch = false := by rw [hpc]; rfl
      rcases h.loopCheck hpc with hpc' | ⟨hpc', hstatus, hopen⟩ <;>
        rw [Manager.goto, hpc'] at hcore hbound hwork ⊢
      · exact h.move hcore hbound rfl rfl ⟨rfl, rfl, rfl⟩ rfl ⟨hbatch, rfl⟩
          (fun hno => by cases hno) (fun hno => by cases hno) (fun hno => by cases hno)
          (fun how hhow => by cases hhow; exact Or.inl rfl) hwork
      · exact h.move hcore hbound rfl rfl ⟨rfl, rfl, rfl⟩ rfl ⟨hbatch, rfl⟩
          (fun hno => by cases hno) (fun _ => hstatus) (fun _ => hopen)
          (fun how hhow => by cases hhow) hwork
    | stopCheckStop hpc | stopCheck hpc =>
      exact h.move hcore hbound rfl rfl ⟨rfl, rfl, rfl⟩ rfl ⟨by rw [hpc]; rfl, rfl⟩
        (fun hno => by cases hno) (fun _ => h.checked (by rw [hpc]; rfl))
        (fun _ => h.waiting (by rw [hpc]; rfl)) (fun how hhow => by cases hhow) hwork
    | epollReady fds hpc => exact h.reported hpc hdrain hcore hbound
    | dispatch evs hpc => exact h.dispatched hpc hcore hbound hwork
    | receiveOut reads hpc =>
      -- what is received is the end of the stream
      obtain rfl : reads = [] := of_decide_eq_true hdrain
      exact h.inBatch hcore hbound ⟨rfl, rfl, rfl⟩ (by rw [hpc]; rfl) rfl
        (by rw [hpc]; exact fun _ => id) (rank_of_waited (h.receiveOut hpc rfl) hwork)
    | receiveErr reads hpc =>
      obtain rfl : reads = [] := of_decide_eq_true hdrain
      exact h.inBatch hcore hbound ⟨rfl, rfl, rfl⟩ (by rw [hpc]; rfl) rfl
        (by rw [hpc]; exact fun _ => id) (rank_of_waited (receiveErr_le hpc rfl) hwork)
    | @timerEvent evs hpc =>
      refine h.inBatch hcore hbound ⟨rfl, rfl, rfl⟩ (by rw [hpc]; rfl) rfl
        (by rw [hpc]; exact fun _ => id) (rank_lt rfl rfl ?_ hwork)
      rw [Manager.promised_dispatch rfl]
      simp [Manager.promised, hpc, Pc.pending]
      rfl
    | waitNone hpc => exact h.waited hpc hadm hcore hbound hwork
    | @waitOther k pid st hpc hpid =>
      have hmem : (pid, Life.zombie st) ∈ p.children := by simpa [admits] using hadm
      exact absurd (h.core.mem_children hmem).2.2.1.symm hpid
    | @reap k st hpc => exact h.reap hpc (by simpa [admits] using hadm) rfl hcore hbound
    -- the log line reads an argument that is not there, and the process dies
    | argsDie hpc =>
      exact h.move hcore hbound rfl rfl ⟨rfl, rfl, rfl⟩ rfl ⟨by rw [hpc]; rfl, rfl⟩
        (fun hno => by cases hno) (fun hno => by cases hno) (fun hno => by cases hno)
        (fun how hhow => by cases hhow; exact Or.inr rfl) hwork
    | argsSurvive hpc => exact h.logged hpc hcore hbound hwork
    | @clearLock _ k hpc | @clearUnlink _ k hpc | @clearUnlock _ k hpc | @clearRmdir _ k hpc =>
      rw [hpc] at hexit
      exact h.move hcore hbound rfl rfl ⟨rfl, rfl, rfl⟩ rfl ⟨by rw [hpc]; rfl, rfl⟩
        (fun hno => by cases hno) (fun hno => by cases hno) (fun hno => by cases hno)
        (by cases k <;> exact hexit) hwork
    | stopKill hpc | stopIdle hpc => exact h.stopReturn hpc hcore hbound hwork
    | destroyRunning hpc | destroyIdle hpc | destroyKill hpc | destroySleep hpc =>
      rw [hpc] at hexit
      exact h.move hcore hbound rfl rfl ⟨rfl, rfl, rfl⟩ rfl ⟨by rw [hpc]; rfl, rfl⟩
        (fun hno => by cases hno) (fun hno => by cases hno) (fun hno => by cases hno)
        hexit hwork
    | destroyClose hpc =>
      rw [hpc] at hexit
      refine ⟨h.frame hcore hbound rfl (Or.inl rfl) List.not_mem_nil (fun hno => by cases hno)
        (fun hno => by cases hno) (fun hno => by cases hno) hexit, rank_lt rfl rfl ?_ hwork⟩
      exact (of_batch (by rw [hpc]; rfl)).2.symm
    -- the other points are none of a manager that is to leave
    | _ =>
      rw [‹p.mgr.pc = _›] at hpoint
      cases hpoint

/-- The manager waits for the end of an output, which somebody holds open who has inherited it
from the command. -/
def Waits (s : Manager) : Prop :=
  s.pc = .epollWait ∧
    (s.out.over = false ∧ s.out.pipefd0 ≠ -1 ∨ s.err.over = false ∧ s.err.pipefd0 ≠ -1)

/-- What is waited for has a read end. -/
theorem Leaving.waits (h : Leaving p) (hpc : p.mgr.pc = .epollWait) : Waits p.mgr := by
  have hstatus : p.mgr.childStatus ≠ .noProc := by
    rw [h.checked (by rw [hpc]; rfl)]
    exact fun hno => by cases hno
  have hout := h.bound.out (by rw [hpc]; rfl) hstatus
  have herr := h.bound.err (by rw [hpc]; rfl) hstatus
  have hopen := h.waiting (by rw [hpc]; rfl)
  refine ⟨hpc, ?_⟩
  -- one of the outputs is not over, and `Bound` gives it a read end
  cases ho : p.mgr.out.over with
  | false => exact Or.inl ⟨rfl, hout.resolve_left (by rw [ho]; decide)⟩
  | true =>
    cases he : p.mgr.err.over with
    | false => exact Or.inr ⟨rfl, herr.resolve_left (by rw [he]; decide)⟩
    | true =>
      rw [Manager.unfinished, ho, he] at hopen
      exact absurd rfl hopen

/-- A step of the manager that the kernel admits. -/
theorem isSome_step {l : Label} (hadm : p.admits l = true)
    (hstep : (Manager.step E p.mgr l).isSome = true) : (p.step E (.mgr l)).isSome = true := by
  rw [Proc.step, if_pos hadm, Option.isSome_map]
  exact hstep

/-- A manager that is to leave goes on, until it is gone or waits. -/
theorem Leaving.goes_on (h : Leaving p) (hgone : ∀ how, p.mgr.pc ≠ .gone how)
    (hwaits : ¬ Waits p.mgr) :
    ∃ l, draining p (.mgr l) = true ∧ (p.step E (.mgr l)).isSome = true := by
  have hpoint := h.point
  cases hpc : p.mgr.pc with
  | gone how => exact absurd hpc (hgone how)
  | epollWait => exact absurd (h.waits hpc) hwaits
  | waitChild k =>
    cases hch : p.children with
    | nil =>
      refine ⟨.waitpid none, rfl, isSome_step (by simp [admits, hch]) ?_⟩
      simp [Manager.step, Manager.codeStep, hpc, Manager.waitChild]
    | cons c cs =>
      -- a child that is there has ended
      obtain ⟨pid, life⟩ := c
      cases life with
      | alive => exact absurd rfl (h.ended (pid, .alive) (by rw [hch]; exact List.mem_cons_self))
      | zombie st =>
        refine ⟨.waitpid (some (pid, st)), rfl, isSome_step (by simp [admits, hch]) ?_⟩
        simp only [Manager.step, Manager.codeStep, hpc, Manager.waitChild]
        split <;> rfl
  | argsRead k =>
    refine ⟨.argsRead false, rfl, isSome_step rfl ?_⟩
    simp [Manager.step, Manager.codeStep, hpc, Manager.argsRead]
  | clear pt pid k =>
    cases pt with
    | lock =>
      refine ⟨.flock .ex, rfl, isSome_step rfl ?_⟩
      simp [Manager.step, Manager.codeStep, hpc, Manager.clearClonepid]
    | unlink =>
      refine ⟨.unlink pid, rfl, isSome_step rfl ?_⟩
      simp [Manager.step, Manager.codeStep, hpc, Manager.clearClonepid]
    | unlock =>
      refine ⟨.flock .un, rfl, isSome_step rfl ?_⟩
      simp [Manager.step, Manager.codeStep, hpc, Manager.clearClonepid]
    | rmdir =>
      refine ⟨.rmdir pid, rfl, isSome_step rfl ?_⟩
      simp [Manager.step, Manager.codeStep, hpc, Manager.clearClonepid]
  | loopCheck | stopCheck | dispatch evs =>
    refine ⟨.tau, rfl, isSome_step rfl ?_⟩
    simp [Manager.step, Manager.codeStep, hpc, Manager.managerStart]
  -- the command has been reaped, so `stop_child` does not signal
  | stopChild k =>
    have hstatus := h.checked (by rw [hpc]; rfl)
    refine ⟨.tau, rfl, isSome_step rfl ?_⟩
    simp [Manager.step, Manager.codeStep, hpc, Manager.stopChild, hstatus]
  | receive isErr evs =>
    refine ⟨.receive [], rfl, isSome_step rfl ?_⟩
    cases isErr <;> simp [Manager.step, Manager.codeStep, hpc, Manager.managerStart]
  | timerEvent evs =>
    refine ⟨.epollDel p.mgr.timerfd, rfl, isSome_step rfl ?_⟩
    simp [Manager.step, Manager.codeStep, hpc, Manager.managerStart]
  | destroy pt how =>
    cases pt with
    | entry | close =>
      refine ⟨.tau, rfl, isSome_step rfl ?_⟩
      simp [Manager.step, Manager.codeStep, hpc, Manager.managerDestroy]
    | kill =>
      refine ⟨.kill p.mgr.clonepid, rfl, isSome_step rfl ?_⟩
      simp [Manager.step, Manager.codeStep, hpc, Manager.managerDestroy]
    | sleep =>
      refine ⟨.sleep, rfl, isSome_step rfl ?_⟩
      simp [Manager.step, Manager.codeStep, hpc, Manager.managerDestroy]
  | _ => rw [hpc] at hpoint; cases hpoint

/-- **A manager that is to leave, leaves.** Let the client be gone, or the manager have been
told to stop, and let the command have ended, when the main loop begins a round. As long as the
manager is only given the ends of its outputs, it takes less than a thousand further steps.
It stops only when it is gone, by `exit(0)` or in the log line of `wait_child`, or when it
waits for an output that somebody else still holds open. -/
theorem ends_of_leaving {fd : ℕ} {evs : List Event}
    (hreach : Machine.Reachable (Proc.step E) (Proc.start fd) p)
    (hpc : p.mgr.pc = .waitChild .loop) (hended : ∀ c ∈ p.children, c.2 ≠ .alive)
    (htold : p.mgr.connection = -1 ∨ p.mgr.processStop = true ∧ p.mgr.childStatus ≠ .noProc)
    (hrun : Machine.exec (Proc.step E) p evs = some p')
    (hdrain : Machine.StepsMeet (Proc.step E) (fun p ev => draining p ev = true) p evs) :
    evs.length < 1000 ∧
      (p'.mgr.pc = .gone .exit0 ∨ p'.mgr.pc = .gone .outOfRange ∨ Waits p'.mgr ∨
        ∃ l, draining p' (.mgr l) = true ∧ (p'.step E (.mgr l)).isSome = true) := by
  obtain ⟨hcore, hbound⟩ := bound_of_reachable hreach
  -- at the head of the loop nothing is asked but that the command has ended
  have hstart : Leaving p := by
    refine ⟨hcore, hbound, hended, by rw [hpc]; rfl, htold, ?_, ?_, ?_, ?_, ?_⟩ <;> rw [hpc]
    · exact List.not_mem_nil
    · exact fun hno => by cases hno
    · exact fun hno => by cases hno
    · exact fun hno => by cases hno
    · exact fun how hhow => by cases hhow
  have hleaving : Leaving p' :=
    (Machine.always_of_stepsMeet (P := Leaving)
      (fun _ _ _ h hd hs => (Leaving.step h hd hs).1) (fun _ h => h) hstart hdrain).last hrun
  refine ⟨?_, ?_⟩
  -- the potential at the start, and it goes down with every step
  · have hlen := Machine.length_le_of_rank Leaving (fun p ev => draining p ev = true) rank
      (fun _ _ _ h hd hs => (Leaving.step h hd hs).1)
      (fun _ _ _ h hd hs => (Leaving.step h hd hs).2) hstart hdrain hrun
    have hchildren := hcore.length_children
    have hunfinished := Manager.unfinished_le p.mgr
    have hrank : rank p ≤ 490 * 2 + 6 * 1 + 8 := by
      have hwork : p.mgr.pc.work = 8 := by rw [hpc]; rfl
      unfold rank
      omega
    omega
  -- where the run stops: at an end, or where nothing more comes
  · by_cases hgone : ∃ how, p'.mgr.pc = .gone how
    · obtain ⟨how, hhow⟩ := hgone
      rcases hleaving.exit how (by rw [hhow]; rfl) with rfl | rfl
      · exact Or.inl hhow
      · exact Or.inr (Or.inl hhow)
    · by_cases hwaits : Waits p'.mgr
      · exact Or.inr (Or.inr (Or.inl hwaits))
      · exact Or.inr (Or.inr (Or.inr
          (hleaving.goes_on (fun how hno => hgone ⟨how, hno⟩) hwaits)))

/-- The client of a command that prints goes away, and the command dies of SIGTERM. -/
def orphanEvents : List Event :=
  (printLabels.take 33 ++ hangupLabels 100).map .mgr ++ [.exit 100 (.signaled 15)]

/-- The manager reaps it, receives the end of its output and leaves. -/
def orphanLabels : List Label :=
  [.waitpid (some (100, .signaled 15)), .flock .ex, .unlink 100, .flock .un, .rmdir 100,
    .waitpid none, .tau, .tau, .epollWait (.ready [8]), .tau, .receive [], .tau, .waitpid none,
    .tau, .tau, .tau]

theorem ends_of_leaving_orphan :
    ∃ p', Machine.exec (Proc.step Proto3.env) (start 5) (orphanEvents ++ orphanLabels.map .mgr) =
        some p' ∧
      (orphanLabels.map Event.mgr).length < 1000 ∧ p'.mgr.pc = .gone .exit0 := by
  obtain ⟨p, hp, hcheck⟩ := Machine.exec_of_any
    (show (Machine.exec (Proc.step Proto3.env) (start 5) orphanEvents).any
      (fun p => p.mgr.pc == .waitChild .loop && p.mgr.connection == -1 &&
        p.children == [(100, .zombie (.signaled 15))] &&
        (Machine.exec (Proc.step Proto3.env) p (orphanLabels.map .mgr)).any
          (fun p' => p'.mgr.pc == .gone .exit0) &&
        decide (Machine.StepsMeet (Proc.step Proto3.env) (fun p ev => draining p ev = true) p
          (orphanLabels.map .mgr))) = true by decide +kernel)
  simp only [Bool.and_eq_true, beq_iff_eq, decide_eq_true_eq] at hcheck
  obtain ⟨⟨⟨⟨hpc, hconn⟩, hch⟩, hrun⟩, hdrain⟩ := hcheck
  obtain ⟨p', hp', hgone⟩ := Machine.exec_of_any hrun
  refine ⟨p', ?_, ?_, beq_iff_eq.mp hgone⟩
  · rw [Machine.exec_append, hp, Option.bind_some]
    exact hp'
  · exact (ends_of_leaving ⟨_, hp⟩ hpc (by rw [hch]; decide) (Or.inl hconn) hp' hdrain).1

end Proc
end Srun
