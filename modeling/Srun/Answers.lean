import Srun.Children

/-!
# Answers to accepted commands

Every command that `handle_request` clones is to be answered by one EXE response:
at once when it is a backend command, otherwise when the main loop finds
`exec_over`. What decides the second case is `result_sendback`, a single flag that
every message but a heartbeat sets, and that nothing clears.

A run is clean (`Clean`) when no other answer is written and no command is cloned
while a foreground command waits for its result, and no foreground command is
cloned once the flag is set. In a clean run the number of answers is the number of
commands, except between a clone and its answer (`Good`). The first step that is
not clean leaves a command that will never be answered: from then on the answers
stay behind (`Damaged`), because the only answer that does not come with its own
clone is the one that the flag still allows.

`Base` holds in all runs. `Effect` sums up what a step does to the counters.
-/

namespace Srun

/-- `wait_child` has been called by `manager_destroy`. -/
def WaitRet.ending : WaitRet → Bool
  | .loop => false
  | .destroy _ => true

namespace Pc

/-- `handle_request` after the clone, with the answer to a backend command. -/
def setup : Pc → Bool
  | .handle .entry _ _ | .handle .find _ _ | .handle .loadOut _ _ | .handle .loadErr _ _
  | .handle .clone _ _ => false
  | .handle _ _ _ | .send _ (.started _) => true
  | _ => false

/-- `manager_destroy` has been entered, or the process is gone. -/
def ending : Pc → Bool
  | .waitChild k | .argsRead k | .clear _ _ k => k.ending
  | .destroy _ _ | .gone _ => true
  | _ => false

/-- The main loop after it has looked at `exec_over`. -/
def settled : Pc → Bool
  | .stopCheck | .stopChild .loop | .epollWait => true
  | _ => false

/-- The answer to a cloned command is being sent. -/
def answering : Pc → Bool
  | .send _ .result | .send _ (.started _) => true
  | _ => false

/-- The points at which only the counters matter. -/
def quiet (pc : Pc) : Bool := !pc.settled && !pc.answering

/-- The points from which a step can change the counters of the history. -/
def counting : Pc → Bool
  | .send _ _ | .handle .clone _ _ => true
  | _ => false

end Pc

theorem Pc.ending_of_setup {pc : Pc} (h : pc.setup = true) : pc.ending = false := by
  cases pc <;> first | rfl | cases h

theorem WaitRet.ending_pc {k : WaitRet} (h : k.ending = true) : k.pc.ending = true := by
  cases k <;> first | rfl | cases h

theorem WaitRet.setup (k : WaitRet) : k.pc.setup = false := by cases k <;> rfl

theorem StopRet.setup (k : StopRet) : k.pc.setup = false := by cases k <;> rfl

theorem SendRet.setup (k : SendRet) : k.pc.setup = false := by cases k <;> rfl

theorem Pc.counting_of_unlockThrow {pc : Pc} (h : pc.unlockThrow = true) :
    pc.counting = false := by
  unfold Pc.unlockThrow at h
  split at h <;> first | rfl | cases h

/-- The labels that change the counters: a message written completely, a clone. -/
def Label.counting : Label → Bool
  | .write data (.wrote n) => n = data.length
  | .clone pid => pid ≠ -1
  | _ => false

def Event.counting : Event → Bool
  | .mgr l => l.counting
  | .exit _ _ => false

theorem Label.counting_of_throwing {l : Label} (h : l.throwing = true) : l.counting = false := by
  cases l with
  | write data r =>
    cases r with
    | wrote n => exact decide_eq_false (of_decide_eq_true h)
    | _ => rfl
  | clone pid => cases h
  | _ => rfl

namespace Proc

variable {E : Env} {p p' : Proc} {ev : Event} {l : Label}

theorem histAfter_counts (h : p.mgr.pc.counting = false) :
    (p.histAfter E l).answered = p.hist.answered ∧ (p.histAfter E l).clones = p.hist.clones := by
  unfold histAfter
  split <;> first
    | exact ⟨rfl, rfl⟩
    | (split <;> exact ⟨rfl, rfl⟩)
    | simp_all [Pc.counting]

theorem histAfter_of_throwing (h : l.throwing = true) :
    (p.histAfter E l).answered = p.hist.answered ∧ (p.histAfter E l).clones = p.hist.clones := by
  unfold histAfter
  split <;> first
    | exact ⟨rfl, rfl⟩
    | (split <;> exact ⟨rfl, rfl⟩)
    | (next => rw [if_neg (of_decide_eq_true h)]; exact ⟨rfl, rfl⟩)
    | cases h

theorem histAfter_sigterm (trusted : Bool) : p.histAfter E (.sigterm trusted) = p.hist := by
  unfold histAfter
  split <;> first | rfl | contradiction

/-- What a step does to the flag and to the counters. -/
inductive Effect (p : Proc) (ev : Event) (p' : Proc) : Prop
  /-- Nothing; the set-up is entered only by cloning. -/
  | quiet (hev : ev.counting = false) (hflag : p'.mgr.resultSendback = p.mgr.resultSendback)
      (hans : p'.hist.answered = p.hist.answered) (hcl : p'.hist.clones = p.hist.clones)
      (hst : p'.mgr.childStatus = .noProc ↔ p.mgr.childStatus = .noProc)
      (hin : p'.mgr.pc.setup = true →
        p.mgr.pc.setup = true ∧ p'.mgr.request.backend = p.mgr.request.backend)
      (hout : p.mgr.pc.setup = true → p'.mgr.pc.setup = true ∨ p'.mgr.pc.ending = true ∨
        p.mgr.request.backend = false)
      (hend : p.mgr.pc.ending = true → p'.mgr.pc.ending = true)
  /-- A command is cloned. -/
  | clone {pid : Int} (hev : ev = .mgr (.clone pid)) (hpid : pid ≠ -1)
      (hpc : p.mgr.pc.setup = false) (hend : p.mgr.pc.ending = false)
      (hflag : p'.mgr.resultSendback = p.mgr.resultSendback)
      (hans : p'.hist.answered = p.hist.answered) (hcl : p'.hist.clones = p.hist.clones + 1)
      (hst : p'.mgr.childStatus = .procRunning) (hsetup : p'.mgr.pc.setup = true)
      (hb : p'.mgr.request.backend = p.mgr.request.backend)
  /-- A message has been written. -/
  | sent {m : Message} {k : SendRet} {data : Bytes} (hpc : p.mgr.pc = .send m k)
      (hev : ev = .mgr (.write data (.wrote data.length)))
      (hflag : p'.mgr.resultSendback = (p.mgr.resultSendback || m.isResult))
      (hans : p'.hist.answered = p.hist.answered + if p.mgr.pc.answering then 1 else 0)
      (hcl : p'.hist.clones = p.hist.clones) (hst : p'.mgr.childStatus = p.mgr.childStatus)
      (hsetup : p'.mgr.pc.setup = false)

/-- Outside the set-up and at other points than the clone, a step that leaves the
flag alone and does not enter the set-up has no effect. -/
theorem Effect.of_plain {m : Manager} {ch : List (Int × Life)} (hev : ev.counting = false)
    (hc : p.mgr.pc.counting = false)
    (hs : p.mgr.pc.setup = false) (hflag : m.resultSendback = p.mgr.resultSendback)
    (hst : m.childStatus = .noProc ↔ p.mgr.childStatus = .noProc) (hs' : m.pc.setup = false)
    (hend : p.mgr.pc.ending = true → m.pc.ending = true) :
    Effect p ev { mgr := m, children := ch, hist := p.histAfter E l } :=
  .quiet hev hflag (histAfter_counts hc).1 (histAfter_counts hc).2 hst
    (fun h => absurd h (by simp [hs'])) (fun h => absurd h (by simp [hs])) hend

/-- Inside the set-up the request stays. -/
theorem Effect.of_setup {m : Manager} {ch : List (Int × Life)} (hev : ev.counting = false)
    (hc : p.mgr.pc.counting = false)
    (hs : p.mgr.pc.setup = true) (hflag : m.resultSendback = p.mgr.resultSendback)
    (hst : m.childStatus = .noProc ↔ p.mgr.childStatus = .noProc)
    (hb : m.request.backend = p.mgr.request.backend)
    (hs' : m.pc.setup = true ∨ m.pc.ending = true ∨ p.mgr.request.backend = false) :
    Effect p ev { mgr := m, children := ch, hist := p.histAfter E l } :=
  .quiet hev hflag (histAfter_counts hc).1 (histAfter_counts hc).2 hst (fun _ => ⟨hs, hb⟩)
    (fun _ => hs')
    (fun h => absurd h (by simp [Pc.ending_of_setup hs]))

theorem reaped_childStatus {s : Manager} {st : WaitStatus} {k : WaitRet} :
    (s.reaped st k).childStatus = .procExit := by
  cases st with
  | signaled sig =>
    simp only [Manager.reaped]
    split
    · rfl
    · rw [Manager.clearEntry_field Manager.childStatus fun _ _ => rfl]
  | _ =>
    simp only [Manager.reaped]
    rw [Manager.clearEntry_field Manager.childStatus fun _ _ => rfl]

/-- Every step has one of these effects. -/
theorem Step.effect (hcore : Core p) (hstep : Proc.Step E p ev p') : Effect p ev p' := by
  cases hstep with
  | exit hc hst => exact .quiet rfl rfl rfl rfl Iff.rfl (fun h => ⟨h, rfl⟩) Or.inl id
  | mgr hadm hm =>
    cases hm with
    | sigterm =>
      exact .quiet rfl rfl (by rw [histAfter_sigterm]) (by rw [histAfter_sigterm]) Iff.rfl
        (fun h => ⟨h, rfl⟩) Or.inl id
    -- the process goes to `manager_destroy`, which answers nothing
    | throws hl =>
      obtain ⟨hpc, hl⟩ := Pc.throwing_of_throws hl
      exact .quiet (Label.counting_of_throwing hl) rfl (histAfter_of_throwing hl).1
        (histAfter_of_throwing hl).2 Iff.rfl (by intro h; cases h)
        (fun _ => Or.inr (Or.inl rfl)) (fun _ => rfl)
    | unlockThrow hpc =>
      have hc := Pc.counting_of_unlockThrow hpc
      exact .quiet rfl rfl (histAfter_counts hc).1 (histAfter_counts hc).2 Iff.rfl
        (by intro h; cases h)
        (fun _ => Or.inr (Or.inl rfl)) (fun _ => rfl)
    | clone hpc hpid =>
      refine .clone rfl hpid (by rw [hpc]; rfl) (by rw [hpc]; rfl) rfl ?_ ?_ rfl rfl rfl <;>
        simp [histAfter, hpc, hpid]
    | cloneFail hpc =>
      refine .quiet rfl rfl ?_ ?_ Iff.rfl (by intro h; cases h)
        (fun h => absurd h (by simp [hpc, Pc.setup]))
        (fun _ => rfl) <;>
        simp [histAfter, hpc]
    | @sent m k data hpc hdata hne =>
      -- the only step that changes `result_sendback` or counts an answer
      refine .sent hpc rfl rfl ?_ ?_ rfl (SendRet.setup k) <;>
        cases k <;> simp [histAfter, hpc, histSent, Pc.answering]
    | sigpipe hpc =>
      refine .quiet rfl rfl ?_ ?_ Iff.rfl (by intro h; cases h) (fun _ => Or.inr (Or.inl rfl))
        (fun _ => rfl) <;>
        simp [histAfter, hpc]
    | @reap k st hpc =>
      -- the reaped command was running
      have hrun := (hcore.mem_children (by simpa [admits] using hadm)).1
      have hst' : (p.mgr.reaped st k).childStatus = .procExit := reaped_childStatus
      exact .of_plain rfl (by rw [hpc]; rfl) (by rw [hpc]; rfl)
        (Manager.reaped_field Manager.resultSendback fun _ _ _ _ => rfl)
        (by simp [hrun, hst']) (Manager.reaped_pc rfl rfl rfl)
        (by rw [hpc]; exact Manager.reaped_pc id id id)
    | argsSurvive hpc =>
      exact .of_plain rfl (by rw [hpc]; rfl) (by rw [hpc]; rfl)
        (Manager.clearEntry_field Manager.resultSendback fun _ _ => rfl)
        (by rw [Manager.clearEntry_field Manager.childStatus fun _ _ => rfl])
        (Manager.clearEntry_pc rfl rfl) (by rw [hpc]; exact Manager.clearEntry_pc id id)
    | received hpc hdata hparse =>
      exact .of_plain rfl (by rw [hpc]; rfl) (by rw [hpc]; rfl)
        (Manager.received_field Manager.resultSendback fun _ _ _ => rfl)
        (by rw [Manager.received_field Manager.childStatus fun _ _ _ => rfl])
        (Manager.received_pc rfl rfl rfl rfl rfl rfl) (by rw [hpc]; intro h; cases h)
    | loopCheck hpc =>
      exact .of_plain rfl (by rw [hpc]; rfl) (by rw [hpc]; rfl) rfl Iff.rfl
        (Manager.loopCheck_pc rfl (fun _ _ _ => rfl) fun _ => rfl) (by rw [hpc]; intro h; cases h)
    | dispatch evs hpc =>
      exact .of_plain rfl (by rw [hpc]; rfl) (by rw [hpc]; rfl) rfl Iff.rfl
        (Manager.dispatch_pc rfl (fun _ => rfl) (fun _ _ => rfl) (fun _ _ => rfl) fun _ => rfl)
        (by rw [hpc]; intro h; cases h)
    | waitNone hpc =>
      exact .of_plain rfl (by rw [hpc]; rfl) (by rw [hpc]; rfl) rfl Iff.rfl (WaitRet.setup _)
        (by rw [hpc]; exact WaitRet.ending_pc)
    | waitOther hpc =>
      exact .of_plain rfl (by rw [hpc]; rfl) (by rw [hpc]; rfl) rfl Iff.rfl (by rw [hpc]; rfl) id
    | stopKill hpc =>
      exact .of_plain rfl (by rw [hpc]; rfl) (by rw [hpc]; rfl) rfl Iff.rfl (StopRet.setup _)
        (by rw [hpc]; intro h; cases h)
    | stopIdle hpc =>
      exact .of_plain rfl (by rw [hpc]; rfl) (by rw [hpc]; rfl) rfl Iff.rfl (StopRet.setup _)
        (by rw [hpc]; intro h; cases h)
    | argsDie hpc =>
      exact .of_plain rfl (by rw [hpc]; rfl) (by rw [hpc]; rfl) rfl Iff.rfl rfl (fun _ => rfl)
    | replyForeground hpc hb =>
      exact .of_setup rfl (by rw [hpc]; rfl) (by rw [hpc]; rfl) rfl Iff.rfl rfl (Or.inr (Or.inr hb))
    | _ =>
      have hpc := ‹p.mgr.pc = _›
      -- `manager_destroy`, then the main loop, then the set-up with its exceptions
      first
        | exact .of_plain rfl (by rw [hpc]; rfl) (by rw [hpc]; rfl) rfl Iff.rfl rfl
            (by rw [hpc]; exact id)
        | exact .of_plain rfl (by rw [hpc]; rfl) (by rw [hpc]; rfl) rfl Iff.rfl rfl
            (by rw [hpc]; intro h; cases h)
        | exact .of_setup rfl (by rw [hpc]; rfl) (by rw [hpc]; rfl) rfl Iff.rfl rfl (Or.inl rfl)
        | exact .of_setup rfl (by rw [hpc]; rfl) (by rw [hpc]; rfl) rfl Iff.rfl rfl
            (Or.inr (Or.inl rfl))

/-- The set-up leaves the status alone. -/
theorem Step.childStatus_of_setup (hs : p.mgr.pc.setup = true) (hstep : Proc.Step E p ev p') :
    p'.mgr.childStatus = p.mgr.childStatus := by
  cases hstep with
  | exit => rfl
  | mgr hadm hm =>
    cases hm with
    | reap hpc | argsSurvive hpc | received hpc | clone hpc => rw [hpc] at hs; cases hs
    | _ => rfl

/-! ### In every run -/

/-- The command of a set-up runs, as far as the manager knows. -/
def Launched (p : Proc) : Prop := p.mgr.pc.setup = true → p.mgr.childStatus = .procRunning

theorem Launched.start (fd : ℕ) : Launched (start fd) := fun h => by
  simp [Proc.start, Pc.setup] at h

theorem Launched.step (h : Launched p) (hcore : Core p) (hstep : Proc.Step E p ev p') :
    Launched p' := by
  intro hs'
  cases hstep.effect hcore with
  | quiet _ _ _ _ _ hin =>
    -- the set-up is entered by the clone only, and keeps the status
    have hs := (hin hs').1
    rw [hstep.childStatus_of_setup hs]
    exact h hs
  | clone _ _ _ _ _ _ _ hst => exact hst
  | sent _ _ _ _ _ _ hsetup => simp [hsetup] at hs'

/-- What ties the flag and the status to the counters in every run. -/
structure Base (p : Proc) : Prop where
  core : Core p
  /-- Until the flag is set nothing has been answered. -/
  fresh : p.mgr.resultSendback = false → p.hist.answered = 0
  cloned : p.hist.clones = 0 ↔ p.mgr.childStatus = .noProc
  /-- The result is sent while the flag is not set. -/
  result : ∀ m, p.mgr.pc = .send m .result →
    m.isResult = true ∧ p.mgr.resultSendback = false ∧ p.mgr.childStatus ≠ .noProc
  started : ∀ m evs, p.mgr.pc = .send m (.started evs) →
    m.isResult = true ∧ p.mgr.request.backend = true
  /-- The main loop does not go on with a result to be sent. -/
  settled : p.mgr.pc.settled = true → p.mgr.execOver = true → p.mgr.connection ≠ -1 →
    p.mgr.resultSendback = true

theorem Base.start (fd : ℕ) : Base (start fd) where
  core := Core.start fd
  fresh := fun _ => rfl
  cloned := by simp [Proc.start]
  result := fun _ h => by simp [Proc.start] at h
  started := fun _ _ h => by simp [Proc.start] at h
  settled := fun h => by simp [Proc.start, Pc.settled] at h

/-- The part of the invariant about the counters, from the effect of the step. -/
theorem Base.counts (h : Base p) (he : Effect p ev p') :
    (p'.mgr.resultSendback = false → p'.hist.answered = 0) ∧
      (p'.hist.clones = 0 ↔ p'.mgr.childStatus = .noProc) := by
  cases he with
  | quiet _ hflag hans hcl hst =>
    rw [hflag, hans, hcl, hst]
    exact ⟨h.fresh, h.cloned⟩
  | clone _ _ _ _ hflag hans hcl hst =>
    rw [hflag, hans, hcl]
    exact ⟨h.fresh, by simp [hst]⟩
  | @sent m k data hpc _ hflag hans hcl hst =>
    rw [hflag, hans, hcl, hst]
    refine ⟨fun hf => ?_, h.cloned⟩
    obtain ⟨hflag, hm⟩ := Bool.or_eq_false_iff.mp hf
    -- an answer to a command sets the flag
    have hk : p.mgr.pc.answering = false := by
      cases k with
      | result => rw [(h.result m hpc).1] at hm; cases hm
      | started evs => rw [(h.started m evs hpc).1] at hm; cases hm
      | _ => rw [hpc]; rfl
    simp [hk, h.fresh hflag]

theorem Base.of_quiet (h : Base p) (hcore : Core p') (he : Effect p ev p')
    (hq : p'.mgr.pc.quiet = true) : Base p' := by
  obtain ⟨hset, hans⟩ : p'.mgr.pc.settled = false ∧ p'.mgr.pc.answering = false := by
    simpa [Pc.quiet] using hq
  refine ⟨hcore, (h.counts he).1, (h.counts he).2, fun m hpc => ?_, fun m evs hpc => ?_,
    fun hs => absurd hs (by simp [hset])⟩
  · simp [hpc, Pc.answering] at hans
  · simp [hpc, Pc.answering] at hans

/-- What the main loop leads to after it has looked at `exec_over`. -/
theorem loopCheck_base {s : Manager} :
    (∀ m, s.loopCheck = .send m .result →
      m.isResult = true ∧ s.resultSendback = false ∧ s.childStatus ≠ .noProc) ∧
    (∀ m evs, s.loopCheck ≠ .send m (.started evs)) ∧
    (s.loopCheck.settled = true → s.execOver = true → s.connection ≠ -1 →
      s.resultSendback = true) := by
  refine Manager.loopCheck_pc ⟨fun _ h => (by cases h), fun _ _ h => (by cases h),
    fun h => (by cases h)⟩
    (fun hover _ hflag => ?_)
    fun hgo => ⟨fun _ h => (by cases h), fun _ _ h => (by cases h), fun _ => hgo⟩
  have hexit : s.childStatus ≠ .noProc := fun h => by simp [Manager.execOver, h] at hover
  refine ⟨fun m hm => ?_, fun _ _ h => (by cases h), fun h => (by cases h)⟩
  cases hm
  exact ⟨rfl, hflag, hexit⟩

theorem Base.step (h : Base p) (hstep : Proc.Step E p ev p') : Base p' := by
  have hcore := h.core.step hstep
  have he := hstep.effect h.core
  obtain ⟨hfresh, hcloned⟩ := h.counts he
  cases hstep with
  | exit => exact ⟨hcore, hfresh, hcloned, h.result, h.started, h.settled⟩
  | mgr hadm hm =>
    cases hm with
    | sigterm => exact ⟨hcore, hfresh, hcloned, h.result, h.started, h.settled⟩
    | loopCheck hpc =>
      -- the decision of the loop is the one place where `settled` is to be shown
      obtain ⟨hresult, hstarted, hsettled⟩ := loopCheck_base (s := p.mgr)
      exact ⟨hcore, hfresh, hcloned, hresult, fun m evs hm => absurd hm (hstarted m evs), hsettled⟩
    -- on the way from the decision to `epoll_wait` nothing changes
    | stopCheckStop hpc | stopCheck hpc =>
      exact ⟨hcore, hfresh, hcloned, fun _ h => (by cases h), fun _ _ h => (by cases h),
        fun _ => h.settled (by rw [hpc]; rfl)⟩
    | @stopKill k hpc | @stopIdle k hpc =>
      cases k with
      | loop =>
        exact ⟨hcore, hfresh, hcloned, fun _ h => (by cases h), fun _ _ h => (by cases h),
        fun _ => h.settled (by rw [hpc]; rfl)⟩
      | _ => exact h.of_quiet hcore he rfl
    -- the answer of a backend command is sent without being awaited
    | replyBackend hpc hb =>
      refine ⟨hcore, hfresh, hcloned, fun _ h => (by cases h), fun m evs hm => ?_,
        fun h => (by cases h)⟩
      cases hm
      exact ⟨rfl, hb⟩
    | @sent m k data hpc =>
      cases k with
      | result =>
        refine ⟨hcore, hfresh, hcloned, fun _ h => (by cases h), fun _ _ h => (by cases h),
          fun _ _ _ => ?_⟩
        -- the result has been written, so the flag is set
        simp [(h.result m hpc).1]
      | _ => exact h.of_quiet hcore he rfl
    | dispatch evs hpc =>
      exact h.of_quiet hcore he
        (Manager.dispatch_pc rfl (fun _ => rfl) (fun _ _ => rfl) (fun _ _ => rfl) fun _ => rfl)
    | waitNone hpc => exact h.of_quiet hcore he (by rename_i k; cases k <;> rfl)
    | waitOther hpc => exact h.of_quiet hcore he (by rw [hpc]; rfl)
    | reap => exact h.of_quiet hcore he (Manager.reaped_pc rfl rfl rfl)
    | argsSurvive => exact h.of_quiet hcore he (Manager.clearEntry_pc rfl rfl)
    | received => exact h.of_quiet hcore he (Manager.received_pc rfl rfl rfl rfl rfl rfl)
    | _ => exact h.of_quiet hcore he rfl

/-! ### Clean runs -/

/-- A foreground command waits for its result, as the manager sees it: a command
has been started, and no answer has been sent. -/
def awaiting (p : Proc) : Bool := p.mgr.childStatus ≠ .noProc && !p.mgr.resultSendback

/-- The condition on a step: nothing but heartbeats is written, and no command is
cloned, while a foreground command waits; and no foreground command is cloned once
the flag is set. -/
structure Clean (p : Proc) (ev : Event) : Prop where
  write : ev.counting = true → ∀ m k, p.mgr.pc = .send m k → p.mgr.pc.answering = false →
    m.isResult = true → p.awaiting = false
  clone : ∀ pid, ev = .mgr (.clone pid) → pid ≠ -1 →
    p.awaiting = false ∧ (p.mgr.request.backend = false → p.mgr.resultSendback = false)

/-- In a clean run every command has been answered, but for the one that is being
set up or that waits for its result. -/
structure Good (p : Proc) : Prop where
  base : Base p
  counts : p.mgr.pc.setup = false → p.mgr.pc.ending = false →
    p.hist.clones = p.hist.answered ∨
      (p.hist.clones = p.hist.answered + 1 ∧ p.mgr.resultSendback = false)
  setup : p.mgr.pc.setup = true → p.hist.clones = p.hist.answered + 1 ∧
    (p.mgr.request.backend = false → p.mgr.resultSendback = false)

/-- One command more has been cloned than will ever be answered: the answer that
the flag still allows and the answer to a backend command that is being set up do
not suffice. -/
structure Damaged (p : Proc) : Prop where
  base : Base p
  behind : p.hist.answered < p.hist.clones
  unset : p.mgr.resultSendback = false → p.hist.answered + 1 < p.hist.clones
  setup : p.mgr.pc.setup = true → p.mgr.request.backend = true →
    p.hist.answered + 1 < p.hist.clones

/-- Until the flag is set, a started command waits. -/
theorem Base.awaiting (h : Base p) (hflag : p.mgr.resultSendback = false)
    (hcl : p.hist.clones ≠ 0) : p.awaiting = true := by
  have hst : p.mgr.childStatus ≠ .noProc := fun hst => hcl (h.cloned.mpr hst)
  simp [Proc.awaiting, hst, hflag]

theorem Good.start (fd : ℕ) : Good (start fd) where
  base := Base.start fd
  counts := fun _ _ => Or.inl rfl
  setup := fun h => by simp [Proc.start, Pc.setup] at h

/-- In a good state the answers are complete unless a command waits. -/
theorem Good.clones_eq (h : Good p) (hs : p.mgr.pc.setup = false) (he : p.mgr.pc.ending = false)
    (hw : p.awaiting = false) : p.hist.clones = p.hist.answered := by
  rcases h.counts hs he with heq | ⟨heq, hflag⟩
  · exact heq
  · have := h.base.awaiting hflag (by omega)
    simp [hw] at this

/-- A clean step keeps the answers complete. -/
theorem Good.step (h : Good p) (hC : Clean p ev) (hstep : Proc.Step E p ev p') : Good p' := by
  have hbase := h.base.step hstep
  cases hstep.effect h.base.core with
  | quiet _ hflag hans hcl _ hin hout hend =>
    refine ⟨hbase, fun hs' he' => ?_, fun hs' => ?_⟩
    · rw [hans, hcl, hflag]
      have he : p.mgr.pc.ending = false := Bool.eq_false_iff.mpr fun he => by simp [hend he] at he'
      by_cases hs : p.mgr.pc.setup = true
      · -- only a foreground command leaves the set-up without an answer
        obtain ⟨hone, hfore⟩ := h.setup hs
        refine Or.inr ⟨hone, hfore ?_⟩
        simpa [hs', he'] using hout hs
      · exact h.counts (by simpa using hs) he
    · obtain ⟨hs, hb⟩ := hin hs'
      rw [hans, hcl, hflag, hb]
      exact h.setup hs
  | clone hev hpid hs he hflag hans hcl _ hs' hb =>
    subst hev
    obtain ⟨hw, hfore⟩ := hC.clone _ rfl hpid
    -- nothing waits before, and the new command waits after
    have heq := h.clones_eq hs he hw
    refine ⟨hbase, fun hs'' => absurd hs' (by simp [hs'']), fun _ => ⟨by omega, ?_⟩⟩
    rw [hb, hflag]
    exact hfore
  | @sent m k data hpc hev hflag hans hcl _ hs' =>
    subst hev
    refine ⟨hbase, fun _ _ => ?_, fun hs => absurd hs (by simp [hs'])⟩
    by_cases ha : p.mgr.pc.answering = true
    · -- the answer to the command that has been waiting
      refine Or.inl ?_
      rw [hans, hcl, if_pos ha]
      cases k with
      | result =>
        -- the flag was not set, so nothing had been answered and one command waits
        obtain ⟨-, hflag, hst⟩ := h.base.result m hpc
        have h0 := h.base.fresh hflag
        have h1 : p.hist.clones ≠ 0 := fun h1 => hst (h.base.cloned.mp h1)
        have := h.counts (by rw [hpc]; rfl) (by rw [hpc]; rfl)
        omega
      | started evs => exact (h.setup (by rw [hpc]; rfl)).1
      | _ => simp [hpc, Pc.answering] at ha
    · have ha : p.mgr.pc.answering = false := by simpa using ha
      have hs : p.mgr.pc.setup = false := by
        cases k <;> simp_all [Pc.setup, Pc.answering]
      have he : p.mgr.pc.ending = false := by rw [hpc]; rfl
      rw [hans, hcl, ha, hflag]
      -- a heartbeat leaves the flag; another result is clean when nothing waits
      by_cases hm : m.isResult = true
      · exact Or.inl (h.clones_eq hs he (hC.write (decide_eq_true rfl) m k hpc ha hm))
      · have hm : m.isResult = false := by simpa using hm
        simpa [hm] using h.counts hs he

/-- The damage stays. -/
theorem Damaged.step (h : Damaged p) (hstep : Proc.Step E p ev p') : Damaged p' := by
  have hbase := h.base.step hstep
  obtain ⟨hbehind, hunset, hsetup⟩ := And.intro h.behind (And.intro h.unset h.setup)
  cases hstep.effect h.base.core with
  | quiet _ hflag hans hcl _ hin =>
    refine ⟨hbase, by omega, fun hf => ?_, fun hs hb => ?_⟩
    · have := hunset (by rwa [hflag] at hf)
      omega
    · obtain ⟨hs, hb'⟩ := hin hs
      have := hsetup hs (by rwa [hb'] at hb)
      omega
  | clone _ _ _ _ hflag hans hcl =>
    -- one more command is behind
    exact ⟨hbase, by omega, fun _ => by omega, fun _ _ => by omega⟩
  | @sent m k data hpc _ hflag hans hcl _ hs' =>
    -- an answer is covered by `unset` or by `setup`, and sets the flag
    have hk : (p.mgr.pc.answering = true → p.hist.answered + 1 < p.hist.clones) ∧
        (p.mgr.pc.answering = true → m.isResult = true) := by
      cases k with
      | result =>
        exact ⟨fun _ => hunset (h.base.result m hpc).2.1, fun _ => (h.base.result m hpc).1⟩
      | started evs =>
        obtain ⟨hm, hb⟩ := h.base.started m evs hpc
        exact ⟨fun _ => hsetup (by rw [hpc]; rfl) hb, fun _ => hm⟩
      | _ => simp [hpc, Pc.answering]
    refine ⟨hbase, ?_, fun hf => ?_, fun hs => absurd hs (by simp [hs'])⟩
    · split at hans
      · next ha => have := hk.1 ha; omega
      · omega
    · obtain ⟨hf, hm⟩ := Bool.or_eq_false_iff.mp (hflag ▸ hf)
      have ha : p.mgr.pc.answering = false :=
        Bool.eq_false_iff.mpr fun ha => by rw [hk.2 ha] at hm; cases hm
      rw [ha] at hans
      have := hunset hf
      simp at hans
      omega

/-- A step that is not clean does the damage. -/
theorem Good.damaged (h : Good p) (hC : ¬ Clean p ev) (hstep : Proc.Step E p ev p') :
    Damaged p' := by
  have hbase := h.base.step hstep
  cases hstep.effect h.base.core with
  | quiet hev =>
    -- such a step is clean
    refine absurd ⟨fun h => absurd h (by simp [hev]), fun pid hpid hne => ?_⟩ hC
    rw [hpid] at hev
    exact absurd hne (by simpa [Event.counting, Label.counting] using hev)
  | clone hev hpid hs he hflag hans hcl _ hs' hb =>
    subst hev
    have hcounts := h.counts hs he
    by_cases hw : p.awaiting = true
    · -- a second command while the first one waits
      obtain ⟨-, hunset⟩ : p.mgr.childStatus ≠ .noProc ∧ p.mgr.resultSendback = false := by
        simpa [Proc.awaiting] using hw
      have hzero := h.base.fresh hunset
      have hne : p.hist.clones ≠ 0 := fun h0 => by
        simp [Proc.awaiting, h.base.cloned.mp h0] at hw
      exact ⟨hbase, by omega, fun _ => by omega, fun _ _ => by omega⟩
    · -- a foreground command with the flag set
      have hw : p.awaiting = false := by simpa using hw
      obtain ⟨hb0, hset⟩ : p.mgr.request.backend = false ∧ p.mgr.resultSendback = true := by
        by_contra hcon
        refine hC ⟨fun hev => ?_, fun _ _ _ => ⟨hw, fun hb0 => ?_⟩⟩
        · intro m k hpc
          exact fun _ _ => hw
        · exact Bool.eq_false_iff.mpr fun hset => hcon ⟨hb0, hset⟩
      refine ⟨hbase, by omega, fun hf => ?_, fun _ hb' => ?_⟩
      · rw [hflag, hset] at hf
        cases hf
      · rw [hb, hb0] at hb'
        cases hb'
  | @sent m k data hpc hev hflag hans hcl _ hs' =>
    subst hev
    -- another answer while a command waits
    obtain ⟨ha, hm, hw⟩ : p.mgr.pc.answering = false ∧ m.isResult = true ∧ p.awaiting = true := by
      by_contra hcon
      refine hC ⟨fun _ m' k' hpc' ha hm => ?_, (by intro _ h; cases h)⟩
      obtain ⟨rfl, -⟩ := Pc.send.inj (hpc.symm.trans hpc')
      exact Bool.eq_false_iff.mpr fun hw => hcon ⟨ha, hm, hw⟩
    have hs : p.mgr.pc.setup = false := by
      cases k <;> simp_all [Pc.setup, Pc.answering]
    have hcounts := h.counts hs (by rw [hpc]; rfl)
    obtain ⟨hst, hunset⟩ : p.mgr.childStatus ≠ .noProc ∧ p.mgr.resultSendback = false := by
      simpa [Proc.awaiting] using hw
    have hzero := h.base.fresh hunset
    have hne : p.hist.clones ≠ 0 := fun h0 => hst (h.base.cloned.mp h0)
    rw [ha] at hans
    simp only [Bool.false_eq_true, if_false, Nat.add_zero] at hans
    refine ⟨hbase, by omega, fun hf => ?_, fun hs => absurd hs (by simp [hs'])⟩
    rw [hflag, hm, Bool.or_true] at hf
    cases hf

/-- **One answer per command, in clean runs and only in them.** Where the loop waits
with `exec_over` and the connection open, as many commands have been answered as
have been cloned if and only if every step of the run was clean. -/
theorem answered_eq_clones_iff {fd : ℕ} {evs : List Event}
    (hrun : Machine.exec (Proc.step E) (Proc.start fd) evs = some p)
    (hpc : p.mgr.pc = .epollWait) (hover : p.mgr.execOver = true)
    (hconn : p.mgr.connection ≠ -1) :
    p.hist.answered = p.hist.clones ↔
      Machine.StepsMeet (Proc.step E) Clean (Proc.start fd) evs := by
  rcases Machine.meet_or_damaged (fun _ _ _ hg hC hs => hg.step hC (step_cases hs))
      (fun _ _ _ hg hC hs => hg.damaged hC (step_cases hs))
      (fun _ _ _ hb hs => hb.step (step_cases hs)) (Good.start fd) hrun with
    ⟨hmeet, hgood⟩ | ⟨hmeet, hdam⟩
  · have hflag := hgood.base.settled (by rw [hpc]; rfl) hover hconn
    have hcounts := hgood.counts (by rw [hpc]; rfl) (by rw [hpc]; rfl)
    simp only [hflag, Bool.true_eq_false, and_false, or_false] at hcounts
    exact ⟨fun _ => hmeet, fun _ => hcounts.symm⟩
  · have := hdam.behind
    exact ⟨fun h => by omega, fun h => absurd h hmeet⟩

/-- `/bin/ls` runs, ends, and its result is written: this run is clean. -/
theorem answered_eq_clones_iff_ls :
    Machine.StepsMeet (Proc.step Proto3.env) Clean (Proc.start 5)
      (lsLabels.map .mgr ++ lsEndEvents (.exited 0) ++
        [Label.tau, .write [0x12, 0] (.wrote 2), .tau].map .mgr) := by
  obtain ⟨p, hrun, hp⟩ := Machine.exec_of_any
    (show (Machine.exec (Proc.step Proto3.env) (Proc.start 5)
      (lsLabels.map .mgr ++ lsEndEvents (.exited 0) ++
        [Label.tau, .write [0x12, 0] (.wrote 2), .tau].map .mgr)).any
      (fun p => p.mgr.pc == .epollWait && p.mgr.execOver && p.mgr.connection != -1 &&
        p.hist.answered == p.hist.clones) = true by decide +kernel)
  simp only [Bool.and_eq_true, beq_iff_eq, bne_iff_ne] at hp
  exact (answered_eq_clones_iff hrun hp.1.1.1 hp.1.1.2 hp.1.2).mp hp.2

/-- No write fails and no stop is requested. -/
def undisturbed : Event → Bool
  | .mgr (.write data r) => r = .wrote data.length
  | .mgr (.sigterm _) => false
  | _ => true

/-- The client asks for LIST and is answered. -/
def listLabels : List Label :=
  receiveLabels listData ++
    [.flock .sh, .readdir .done, .flock .un, .write [8, 3] (.wrote 2)]

/-- LIST and then `/bin/ls` on one connection: the command is never answered. -/
theorem answered_ne_clones :
    ¬ ∀ evs p, Machine.exec (Proc.step Proto3.env) (Proc.start 5) evs = some p →
      (∀ ev ∈ evs, undisturbed ev = true) → p.mgr.pc = .epollWait → p.mgr.execOver = true →
      p.mgr.connection ≠ -1 → p.hist.answered = p.hist.clones := by
  intro hall
  obtain ⟨p, hrun, hp⟩ := Machine.exec_of_any
    (show (Machine.exec (Proc.step Proto3.env) (Proc.start 5)
      ((bootLabels ++ listLabels ++ loopLabels ++ receiveLabels lsData ++
        handleLabels lsData.bytes 100 ++ loopLabels).map .mgr ++ lsEndEvents (.exited 0) ++
        [Label.tau, .tau].map .mgr)).any
      (fun p => p.mgr.pc == .epollWait && p.mgr.execOver && p.mgr.connection != -1 &&
        p.hist.clones == 1 && p.hist.answered == 0) = true by decide +kernel)
  simp only [Bool.and_eq_true, beq_iff_eq, bne_iff_ne] at hp
  obtain ⟨⟨⟨⟨hpc, hover⟩, hconn⟩, hcl⟩, hans⟩ := hp
  have := hall _ p hrun (by decide) hpc hover hconn
  omega

end Proc
end Srun
