import Srun.Children
import Srun.Framework.Observer

/-!
# Signals and `epoll_wait`

The main loop calls `wait_child`, looks at `process_stop` and then calls `epoll_wait`. The
handlers of SIGCHLD and SIGTERM only return, or set the flag: what makes the loop go round
is that a signal interrupts `epoll_wait`, and it does so only while the call blocks. Once
`syn_timeout` is -1 nothing else ends the call but an event on a descriptor.

`Polling` puts next to a manager process what the kernel knows of its signals: whether
`epoll_wait` blocks, whether a handler has run meanwhile, and whether SIGCHLD is pending.
The observer keeps what the last check of `process_stop` has seen.

A signal is delivered at some point of the code. From most points the loop comes to
`wait_child`, and to the check, before it comes to `epoll_wait` again. The exception are the
few points in between, and `Timely` is the condition that a signal avoids them.
`awake_of_timely` says that no run whose signals are timely loses a wake-up, and
`lost_of_untimely` that the condition cannot be less: after a signal that is not timely the
code can go on, without any other signal, to the `epoll_wait` that loses it.
-/

namespace Srun

/-- From the end of `wait_child` to the end of `epoll_wait`, but for the sending of a
result: the points at which a command that has ended is not looked for before the call. -/
def Pc.approaching : Pc → Bool
  | .loopCheck | .stopCheck | .stopChild .loop | .epollWait => true
  | _ => false

/-- A manager process, its call of `epoll_wait` and its SIGCHLD. SIGCHLD is not queued: one that
is pending stands for all that have been sent. -/
structure Polling where
  proc : Proc
  /-- `epoll_wait` has been entered, and has found nothing to report. -/
  blocked : Bool := false
  /-- A handler has run while it blocked. -/
  interrupted : Bool := false
  /-- SIGCHLD is pending. -/
  sigchld : Bool := false

/-- What can happen. -/
inductive PollEvent
  /-- `epoll_wait` blocks. -/
  | block
  /-- SIGCHLD is delivered; its handler does nothing. -/
  | sigchld
  | proc (ev : Event)

/-- Only the code runs, with its `epoll_wait`: no signal is delivered, and no child ends. -/
def PollEvent.quiet : PollEvent → Bool
  | .block => true
  | .proc (.mgr (.sigterm _)) | .proc (.exit ..) | .sigchld => false
  | .proc (.mgr _) => true

namespace Polling

def start (fd : ℕ) : Polling := { proc := Proc.start fd }

/-- What `epoll_wait` can return: it is interrupted only by a handler that has run while it
blocked, and it times out only when it has blocked. -/
def returns (w : Polling) : EpollResult → Bool
  | .eintr => w.interrupted
  | .timeout => w.blocked
  | .error | .ready _ => true

/-- One step. -/
def step (E : Env) (w : Polling) : PollEvent → Option Polling
  | .block =>
    if w.proc.mgr.pc = .epollWait ∧ w.blocked = false then some { w with blocked := true }
    else none
  | .sigchld =>
    if w.sigchld = true ∧ ¬ (w.proc.mgr.pc matches .gone _) then
      some { w with sigchld := false, interrupted := w.interrupted || w.blocked }
    else none
  | .proc (.mgr (.epollWait r)) =>
    if w.returns r then
      (w.proc.step E (.mgr (.epollWait r))).map fun p =>
        { w with proc := p, blocked := false, interrupted := false }
    else none
  | .proc (.mgr (.sigterm trusted)) =>
    (w.proc.step E (.mgr (.sigterm trusted))).map fun p =>
      { w with proc := p, interrupted := w.interrupted || w.blocked }
  | .proc (.mgr l) => (w.proc.step E (.mgr l)).map fun p => { w with proc := p }
  | .proc (.exit pid st) =>
    (w.proc.step E (.exit pid st)).map fun p => { w with proc := p, sigchld := true }

/-- A child has ended and has not been reaped. The kernel sends SIGCHLD when it ends, and only
`waitpid` makes an end of it. -/
def ended (w : Polling) : Bool := w.proc.children.any fun c => c.2 ≠ .alive

/-- What the last check of `process_stop` has seen, after a step. -/
def lastCheck (w : Polling) (ev : PollEvent) (_ : Polling) (checked : Bool) : Bool :=
  match ev with
  | .proc (.mgr .tau) =>
    if w.proc.mgr.pc = .stopCheck then w.proc.mgr.processStop else checked
  | _ => checked

/-- `epoll_wait` blocks with timeout -1, and no handler has run since it does. Nothing but an
event on a descriptor or a further signal ends such a call. -/
def sleeping (w : Polling) : Bool :=
  w.blocked && !w.interrupted && w.proc.mgr.synTimeout = -1

/-- No wake-up has been lost: while the manager sleeps, the SIGCHLD of a child that has
ended is still to come, and `process_stop` is what it was when it was checked. -/
structure Awake (w : Polling) (checked : Bool) : Prop where
  child : w.sleeping = true → w.ended = true → w.sigchld = true
  stop : w.sleeping = true → w.proc.mgr.processStop = true → checked = true

/-- The code stands at one of the `points`, and its next `epoll_wait`, which does not block
yet, has timeout -1. -/
def nears (w : Polling) (points : Pc → Bool) : Bool :=
  points w.proc.mgr.pc && !w.blocked && w.proc.mgr.synTimeout = -1

/-- A signal is not delivered where it is too late for the loop to look and too early to
interrupt `epoll_wait`: the SIGCHLD of a child that has ended not between `wait_child` and
the call, and a SIGTERM that sets `process_stop` not between the check and the call. -/
def timely (w : Polling) : PollEvent → Bool
  | .sigchld => !(w.ended && w.nears Pc.approaching)
  | .proc (.mgr (.sigterm true)) => !(!w.proc.mgr.processStop && w.nears (· = .epollWait))
  | _ => true

/-- What holds of the process and its `epoll_wait` in every run, with signals at any moment. -/
structure Heard (w : Polling) : Prop where
  core : Proc.Core w.proc
  /-- A result is sent when the command has been reaped. -/
  result : ∀ m, w.proc.mgr.pc = .send m .result → w.proc.mgr.childStatus ≠ .procRunning
  blocked : w.blocked = true → w.proc.mgr.pc = .epollWait
  interrupted : w.interrupted = true → w.blocked = true

theorem Heard.start (fd : ℕ) : Heard (start fd) where
  core := Proc.Core.start fd
  result := fun _ h => by cases h
  blocked := fun h => by cases h
  interrupted := fun h => by cases h

/-- What timely signals keep: on the way to an `epoll_wait` with timeout -1, and while it
blocks, nothing has been delivered that the loop has not looked for, unless the call has
been interrupted. -/
structure Told (w : Polling) (checked : Bool) : Prop where
  child : w.proc.mgr.pc.approaching = true → w.proc.mgr.synTimeout = -1 →
    w.interrupted = false → w.ended = true → w.sigchld = true
  killed : w.proc.mgr.pc = .stopChild .loop → checked = true
  stop : w.proc.mgr.pc = .epollWait → w.proc.mgr.synTimeout = -1 → w.interrupted = false →
    w.proc.mgr.processStop = true → checked = true
  set : checked = true → w.proc.mgr.processStop = true

theorem Told.start (fd : ℕ) : Told (start fd) false where
  child := fun h => by cases h
  killed := fun h => by cases h
  stop := fun h => by cases h
  set := fun h => by cases h

variable {E : Env} {w w' : Polling} {checked : Bool} {ev : PollEvent} {p p' : Proc}

/-! ### What the steps of the process leave alone -/

/-- Only the handler changes `process_stop`. -/
theorem processStop_of_ne {l : Label} (hl : ∀ trusted, l ≠ .sigterm trusted)
    (hstep : Proc.Step E p (.mgr l) p') : p'.mgr.processStop = p.mgr.processStop := by
  cases hstep with
  | mgr hadm hm =>
    cases hm with
    | sigterm trusted => exact absurd rfl (hl trusted)
    | reap => exact Manager.reaped_field Manager.processStop fun _ _ _ _ => rfl
    | argsSurvive => exact Manager.clearEntry_field Manager.processStop fun _ _ => rfl
    | received => exact Manager.received_field Manager.processStop fun _ _ _ => rfl
    | _ => rfl

/-- After a `waitpid` no child is left that has ended: it returns 0 when none has, and there is
one child at most. -/
theorem ended_of_waitpid {r : Option (Int × WaitStatus)} (hcore : Proc.Core p)
    (hstep : Proc.Step E p (.mgr (.waitpid r)) p') :
    (p'.children.any fun c => c.2 ≠ .alive) = false := by
  cases hstep with
  | mgr hadm hm =>
    cases r with
    | none =>
      have hall : p.children.all (·.2 = .alive) = true := hadm
      simpa [Proc.childrenAfter, List.any_eq_false, List.all_eq_true] using hall
    | some r =>
      obtain ⟨pid, st⟩ := r
      -- the child that is reaped is the only one
      obtain ⟨-, hch, -⟩ := hcore.mem_children (of_decide_eq_true hadm)
      simp [Proc.childrenAfter, hch]

/-- The other steps of the manager end no child and reap none. A clone adds a child that runs. -/
theorem ended_of_ne {l : Label} (hl : ∀ r, l ≠ .waitpid r) (hstep : Proc.Step E p (.mgr l) p') :
    (p'.children.any fun c => c.2 ≠ .alive) = p.children.any fun c => c.2 ≠ .alive := by
  cases hstep with
  | @mgr l m hadm hm =>
    by_cases hclone : ∃ pid, l = .clone pid
    · obtain ⟨pid, rfl⟩ := hclone
      by_cases hpid : pid = -1
      · simp [Proc.childrenAfter, hpid]
      · simp [Proc.childrenAfter, hpid]
    · have hsame : p.childrenAfter l = p.children :=
        Proc.childrenAfter_of_ne (fun r => hl (some r)) fun pid hpid => hclone ⟨pid, hpid⟩
      exact congrArg (List.any · _) hsame

/-- At `epoll_wait` the code can only return from it. -/
theorem label_of_epollWait {l : Label} (hpc : p.mgr.pc = .epollWait)
    (hstep : Proc.Step E p (.mgr l) p') :
    (∃ trusted, l = .sigterm trusted) ∨ ∃ r, l = .epollWait r := by
  cases hstep with
  | mgr hadm hm =>
    cases hm with
    | sigterm trusted => exact Or.inl ⟨trusted, rfl⟩
    | epollEintr | epollReady | heartbeat | epollIdle => exact Or.inr ⟨_, rfl⟩
    | throws hl =>
      rw [hpc] at hl
      unfold Pc.throws at hl
      split at hl <;> first | exact Or.inr ⟨_, rfl⟩ | contradiction
    | unlockThrow hl => rw [hpc] at hl; cases hl
    | _ => rw [‹p.mgr.pc = _›] at hpc; cases hpc

/-- The points before `epoll_wait` are entered by the end of `wait_child` or after a result
has been sent. On the way nothing touches the timeout. -/
theorem approach {l : Label} (hterm : ∀ trusted, l ≠ .sigterm trusted)
    (hstep : Proc.Step E p (.mgr l) p') (h' : p'.mgr.pc.approaching = true) :
    l = .waitpid none ∨ (∃ m, p.mgr.pc = .send m .result) ∨
      p.mgr.pc.approaching = true ∧ p.mgr.pc ≠ .epollWait ∧
        p'.mgr.synTimeout = p.mgr.synTimeout := by
  -- most steps lead to a point that is not on the way
  have hfar : ∀ {pc : Pc}, pc.approaching = false → pc.approaching ≠ true := fun h h' => by
    rw [h] at h'
    cases h'
  cases hstep with
  | mgr hadm hm =>
    cases hm with
    | sigterm trusted => exact absurd rfl (hterm trusted)
    | waitNone => exact Or.inl rfl
    | loopCheck hpc | stopCheckStop hpc | stopCheck hpc =>
      exact Or.inr (Or.inr ⟨by rw [hpc]; rfl, by rw [hpc]; exact Pc.noConfusion, rfl⟩)
    | @stopKill k hpc | @stopIdle k hpc =>
      cases k with
      | loop => exact Or.inr (Or.inr ⟨by rw [hpc]; rfl, by rw [hpc]; exact Pc.noConfusion, rfl⟩)
      | closed | timer => cases h'
    | @sent m k data hpc =>
      cases k with
      | result => exact Or.inr (Or.inl ⟨m, hpc⟩)
      | _ => cases h'
    -- no other step comes to one of these points
    | waitOther hpc => rw [hpc] at h'; cases h'
    | reap => exact absurd h' (hfar (Manager.reaped_pc rfl rfl rfl))
    | argsSurvive => exact absurd h' (hfar (Manager.clearEntry_pc rfl rfl))
    | dispatch =>
      exact absurd h' (hfar (Manager.dispatch_pc rfl (fun _ => rfl) (fun _ _ => rfl)
        (fun _ _ => rfl) fun _ => rfl))
    | received => exact absurd h' (hfar (Manager.received_pc rfl rfl rfl rfl rfl rfl))
    | _ => cases h'

/-- `stop_child` is called from the main loop when the check has seen `process_stop`, and
`epoll_wait` after it or when the check has seen nothing. -/
theorem checked_of_step {l : Label} (hterm : ∀ trusted, l ≠ .sigterm trusted)
    (hstep : Proc.Step E p (.mgr l) p') :
    (p'.mgr.pc = .stopChild .loop →
      l = .tau ∧ p.mgr.pc = .stopCheck ∧ p.mgr.processStop = true) ∧
    (p'.mgr.pc = .epollWait →
      l = .tau ∧ p.mgr.pc = .stopCheck ∧ p.mgr.processStop = false ∨
        p.mgr.pc = .stopChild .loop) := by
  -- both halves hold at once where a step leads to neither point
  have hpast : ∀ {pc : Pc}, pc ≠ .stopChild .loop ∧ pc ≠ .epollWait →
      (pc = .stopChild .loop → l = .tau ∧ p.mgr.pc = .stopCheck ∧ p.mgr.processStop = true) ∧
      (pc = .epollWait → l = .tau ∧ p.mgr.pc = .stopCheck ∧ p.mgr.processStop = false ∨
        p.mgr.pc = .stopChild .loop) :=
    fun h => ⟨fun hpc => absurd hpc h.1, fun hpc => absurd hpc h.2⟩
  cases hstep with
  | mgr hadm hm =>
    cases hm with
    | sigterm trusted => exact absurd rfl (hterm trusted)
    | stopCheckStop hpc hstop => exact ⟨fun _ => ⟨rfl, hpc, hstop⟩, fun h => by cases h⟩
    | stopCheck hpc hstop => exact ⟨fun h => (by cases h), fun _ => Or.inl ⟨rfl, hpc, hstop⟩⟩
    | @stopKill k hpc | @stopIdle k hpc =>
      cases k with
      | loop => exact ⟨fun h => (by cases h), fun _ => Or.inr hpc⟩
      | closed | timer => exact hpast ⟨Pc.noConfusion, Pc.noConfusion⟩
    -- no other step comes to one of the two points
    | waitOther hpc => exact hpast (by rw [hpc]; exact ⟨Pc.noConfusion, Pc.noConfusion⟩)
    | @waitNone k => cases k <;> exact hpast ⟨Pc.noConfusion, Pc.noConfusion⟩
    | @sent m k => cases k <;> exact hpast ⟨Pc.noConfusion, Pc.noConfusion⟩
    | loopCheck =>
      exact hpast (Manager.loopCheck_pc (by simp) (fun _ _ _ => by simp) fun _ => by simp)
    | reap => exact hpast (Manager.reaped_pc (by simp) (by simp) (by simp))
    | argsSurvive => exact hpast (Manager.clearEntry_pc (by simp) (by simp))
    | dispatch =>
      exact hpast (Manager.dispatch_pc (by simp) (by simp) (by simp) (by simp) (by simp))
    | received =>
      exact hpast (Manager.received_pc (by simp) (by simp) (by simp) (by simp) (by simp) (by simp))
    | _ => exact hpast ⟨fun hpc => (by cases hpc), fun hpc => (by cases hpc)⟩

/-- After `epoll_wait` the loop has its whole way before it. -/
theorem far_of_epollWait {r : EpollResult} (hstep : Proc.Step E p (.mgr (.epollWait r)) p') :
    p'.mgr.pc.approaching = false := by
  cases hstep with
  | mgr hadm hm => cases hm <;> rfl

/-- A result is sent only when the command is over. This is why the way from a result to
`epoll_wait` needs no `wait_child`. -/
theorem result_of_step {l : Label}
    (h : ∀ m, p.mgr.pc = .send m .result → p.mgr.childStatus ≠ .procRunning)
    (hstep : Proc.Step E p (.mgr l) p') :
    ∀ m, p'.mgr.pc = .send m .result → p'.mgr.childStatus ≠ .procRunning := by
  have hno : ∀ {pc : Pc} {b : Prop}, (∀ m, pc ≠ .send m .result) → ∀ m, pc = .send m .result → b :=
    fun hne m hpc => absurd hpc (hne m)
  cases hstep with
  | mgr hadm hm =>
    cases hm with
    | sigterm => exact h
    | loopCheck hpc =>
      exact Manager.loopCheck_pc (motive := fun pc => ∀ m, pc = .send m .result →
          p.mgr.childStatus ≠ .procRunning) (hno fun _ => Pc.noConfusion)
        (fun hover _ _ _ _ hrun => by simp [Manager.execOver, hrun] at hover)
        fun _ => hno fun _ => Pc.noConfusion
    | waitOther hpc => exact hno fun m hm => by rw [hpc] at hm; cases hm
    | @waitNone k => cases k <;> exact hno fun _ => Pc.noConfusion
    | @stopKill k | @stopIdle k => cases k <;> exact hno fun _ => Pc.noConfusion
    | @sent m k => cases k <;> exact hno fun _ => Pc.noConfusion
    | reap => exact hno (Manager.reaped_pc (by simp) (by simp) (by simp))
    | argsSurvive => exact hno (Manager.clearEntry_pc (by simp) (by simp))
    | dispatch => exact hno (Manager.dispatch_pc (by simp) (by simp) (by simp) (by simp) (by simp))
    | received =>
      exact hno (Manager.received_pc (by simp) (by simp) (by simp) (by simp) (by simp) (by simp))
    | _ => exact hno fun _ hm => by cases hm

/-! ### The steps -/

/-- The steps, by name. -/
inductive Step (E : Env) (w : Polling) : PollEvent → Polling → Prop
  | block (hpc : w.proc.mgr.pc = .epollWait) (hb : w.blocked = false) :
      Step E w .block { w with blocked := true }
  | sigchld (hpending : w.sigchld = true) :
      Step E w .sigchld { w with sigchld := false, interrupted := w.interrupted || w.blocked }
  | wait {r : EpollResult} {p : Proc} (hr : w.returns r)
      (hp : Proc.Step E w.proc (.mgr (.epollWait r)) p) :
      Step E w (.proc (.mgr (.epollWait r)))
        { w with proc := p, blocked := false, interrupted := false }
  | sigterm {trusted : Bool} {p : Proc} (hp : Proc.Step E w.proc (.mgr (.sigterm trusted)) p) :
      Step E w (.proc (.mgr (.sigterm trusted)))
        { w with proc := p, interrupted := w.interrupted || w.blocked }
  | code {l : Label} {p : Proc} (hwait : ∀ r, l ≠ .epollWait r)
      (hterm : ∀ trusted, l ≠ .sigterm trusted) (hp : Proc.Step E w.proc (.mgr l) p) :
      Step E w (.proc (.mgr l)) { w with proc := p }
  | exit {pid : Int} {st : WaitStatus} {p : Proc} (hp : Proc.Step E w.proc (.exit pid st) p) :
      Step E w (.proc (.exit pid st)) { w with proc := p, sigchld := true }

theorem step_cases (h : step E w ev = some w') : Step E w ev w' := by
  -- every step but the first two is one of the process
  have hmap : ∀ {e : Event} {f : Proc → Polling}, (w.proc.step E e).map f = some w' →
      ∃ p, Proc.Step E w.proc e p ∧ f p = w' := by
    intro e f hf
    obtain ⟨p, hp, rfl⟩ := Option.map_eq_some_iff.mp hf
    exact ⟨p, Proc.step_cases hp, rfl⟩
  unfold step at h
  split at h
  · split at h
    · next hb => cases h; exact .block hb.1 hb.2
    · cases h
  · obtain ⟨hp, h⟩ := Option.ite_none_right_eq_some.mp h
    cases h
    exact .sigchld hp.1
  · split at h
    · next hr =>
      obtain ⟨p, hp, rfl⟩ := hmap h
      exact .wait hr hp
    · cases h
  · obtain ⟨p, hp, rfl⟩ := hmap h
    exact .sigterm hp
  · next l hwait hterm =>
    obtain ⟨p, hp, rfl⟩ := hmap h
    exact .code (fun r hr => hwait r hr) (fun t ht => hterm t ht) hp
  · obtain ⟨p, hp, rfl⟩ := hmap h
    exact .exit hp

/-- The code runs only while `epoll_wait` does not block: there is one process, and it is in the
call. -/
theorem Heard.blocked_eq_false (h : Heard w) {l : Label} (hwait : ∀ r, l ≠ .epollWait r)
    (hterm : ∀ trusted, l ≠ .sigterm trusted) (hp : Proc.Step E w.proc (.mgr l) p) :
    w.blocked = false := by
  refine Bool.eq_false_iff.mpr fun hb => ?_
  rcases label_of_epollWait (h.blocked hb) hp with ⟨trusted, hl⟩ | ⟨r, hl⟩
  · exact hterm trusted hl
  · exact hwait r hl

/-- The handler of SIGTERM sets the flag, and that is all. -/
theorem step_sigterm {trusted : Bool} (hstep : Proc.Step E p (.mgr (.sigterm trusted)) p') :
    p'.mgr = { p.mgr with processStop := p.mgr.processStop || trusted } ∧
      p'.children = p.children := by
  cases hstep with
  | mgr hadm hm =>
    cases hm with
    | sigterm => exact ⟨rfl, rfl⟩
    | throws hl => cases (Pc.throwing_of_throws hl).2

/-- The end of the command changes no variable of the manager. -/
theorem step_exit {pid : Int} {st : WaitStatus} (hstep : Proc.Step E p (.exit pid st) p') :
    p'.mgr = p.mgr := by
  cases hstep with
  | exit => rfl

/-- A handler that runs interrupts `epoll_wait` if it blocks. -/
theorem Heard.blocked_of_handler (h : Heard w) (hi : (w.interrupted || w.blocked) = true) :
    w.blocked = true :=
  (Bool.or_eq_true_iff.mp hi).elim h.interrupted id

theorem Heard.step (h : Heard w) (hstep : Step E w ev w') : Heard w' := by
  cases hstep with
  | block hpc hb => exact ⟨h.core, h.result, fun _ => hpc, fun _ => rfl⟩
  | sigchld hpending => exact ⟨h.core, h.result, h.blocked, h.blocked_of_handler⟩
  | wait hr hp =>
    exact ⟨h.core.step hp, result_of_step h.result hp, fun hb => (by cases hb),
      fun hi => by cases hi⟩
  | sigterm hp =>
    refine ⟨h.core.step hp, result_of_step h.result hp, fun hb => ?_, h.blocked_of_handler⟩
    exact (congrArg Manager.pc (step_sigterm hp).1).trans (h.blocked hb)
  | code hwait hterm hp =>
    have hblocked := h.blocked_eq_false hwait hterm hp
    exact ⟨h.core.step hp, result_of_step h.result hp,
      fun hb => absurd hb (Bool.eq_false_iff.mp hblocked), h.interrupted⟩
  | exit hp =>
    have hmgr := step_exit hp
    refine ⟨h.core.step hp, ?_, fun hb => (congrArg Manager.pc hmgr).trans (h.blocked hb),
      h.interrupted⟩
    rw [hmgr]
    exact h.result

/-- While `epoll_wait` does not block, no handler has interrupted it. -/
theorem Heard.interrupted_eq_false (h : Heard w) (hb : w.blocked = false) :
    w.interrupted = false :=
  Bool.eq_false_iff.mpr fun hi => Bool.eq_false_iff.mp hb (h.interrupted hi)

/-- Where a result is being sent, no child is left. -/
theorem Heard.ended_of_result (h : Heard w) {m : Message} (hpc : w.proc.mgr.pc = .send m .result) :
    w.ended = false := by
  rw [ended, h.core.idle (h.result m hpc)]
  rfl

/-- No wake-up has been lost. What `Told` says on the way to `epoll_wait` it says while the call
blocks too, and a manager that sleeps is there. -/
theorem Told.awake (h : Told w checked) (hheard : Heard w) : Awake w checked := by
  have hasleep : w.sleeping = true → w.proc.mgr.pc = .epollWait ∧ w.interrupted = false ∧
      w.proc.mgr.synTimeout = -1 := by
    intro hs
    simp only [sleeping, Bool.and_eq_true, Bool.not_eq_true', decide_eq_true_eq] at hs
    exact ⟨hheard.blocked hs.1.1, hs.1.2, hs.2⟩
  constructor
  case child =>
    intro hs hended
    obtain ⟨hpc, hi, ht⟩ := hasleep hs
    exact h.child (by rw [hpc]; rfl) ht hi hended
  case stop =>
    intro hs hstop
    obtain ⟨hpc, hi, ht⟩ := hasleep hs
    exact h.stop hpc ht hi hstop

/-- A step of the code on the way to `epoll_wait`. The way begins behind a `waitpid` or a result,
where no child has ended unseen, and the check of `process_stop` lies on it. -/
theorem Told.code (h : Told w checked) (hheard : Heard w) {l : Label}
    (hterm : ∀ trusted, l ≠ .sigterm trusted) (hp : Proc.Step E w.proc (.mgr l) p)
    (hb : w.blocked = false) :
    Told { w with proc := p } (lastCheck w (.proc (.mgr l)) w' checked) := by
  have hi := hheard.interrupted_eq_false hb
  have hstop := processStop_of_ne hterm hp
  obtain ⟨hkill, hwaits⟩ := checked_of_step hterm hp
  have hcheck : l = .tau → w.proc.mgr.pc = .stopCheck →
      lastCheck w (.proc (.mgr l)) w' checked = w.proc.mgr.processStop := by
    rintro rfl hpc
    exact if_pos hpc
  constructor
  case child =>
    intro hpc ht _ hended
    by_cases hpid : ∃ r, l = .waitpid r
    · -- no child is left that has ended
      obtain ⟨r, rfl⟩ := hpid
      exact absurd hended (Bool.eq_false_iff.mp (ended_of_waitpid hheard.core hp))
    have hended : w.ended = true :=
      (ended_of_ne (fun r hr => hpid ⟨r, hr⟩) hp).symm.trans hended
    rcases approach hterm hp hpc with hl | ⟨m, hsend⟩ | ⟨hpc₀, -, ht₀⟩
    · exact absurd ⟨none, hl⟩ hpid
    · exact absurd hended (Bool.eq_false_iff.mp (hheard.ended_of_result hsend))
    · exact h.child hpc₀ (ht₀.symm.trans ht) hi hended
  case killed =>
    intro hpc
    obtain ⟨hl, hpc₀, hset⟩ := hkill hpc
    exact (hcheck hl hpc₀).trans hset
  case stop =>
    intro hpc ht _ hset
    rcases hwaits hpc with ⟨-, -, hunset⟩ | hpc₀
    · -- the check has seen nothing, so nothing is set
      have hset : w.proc.mgr.processStop = true := hstop.symm.trans hset
      rw [hunset] at hset
      cases hset
    · have hkept : lastCheck w (.proc (.mgr l)) w' checked = checked := by
        unfold lastCheck
        split
        · next heq => exact if_neg (by rw [hpc₀]; exact Pc.noConfusion)
        · rfl
      rw [hkept]
      exact h.killed hpc₀
  case set =>
    intro hc
    show p.mgr.processStop = true
    rw [hstop]
    unfold lastCheck at hc
    split at hc
    · split at hc
      · exact hc
      · exact h.set hc
    · exact h.set hc

/-- **One step.** A timely step keeps what the signals have told. -/
theorem Told.step (h : Told w checked) (hheard : Heard w) (htimely : w.timely ev = true)
    (hstep : Step E w ev w') : Told w' (lastCheck w ev w' checked) := by
  cases hstep with
  | block hpc hb => exact ⟨h.child, h.killed, h.stop, h.set⟩
  | sigchld hpending =>
    refine ⟨fun hpc ht hi hended => ?_, h.killed, fun hpc ht hi => ?_, h.set⟩
    · -- the delivery would not be timely
      have hb := (Bool.or_eq_false_iff.mp hi).2
      have hpc : w.proc.mgr.pc.approaching = true := hpc
      have ht : w.proc.mgr.synTimeout = -1 := ht
      have hended : w.ended = true := hended
      simp [timely, nears, hended, hpc, hb, ht] at htimely
    · exact h.stop hpc ht (Bool.or_eq_false_iff.mp hi).1
  | @wait r p hr hp =>
    have hfar : ¬ p.mgr.pc.approaching = true := by
      rw [far_of_epollWait hp]
      exact Bool.false_ne_true
    have hset := fun hc => (processStop_of_ne (fun _ => Label.noConfusion) hp).trans (h.set hc)
    exact ⟨fun hpc => absurd hpc hfar, fun hpc => absurd (by rw [hpc]; rfl) hfar,
      fun hpc => absurd (by rw [hpc]; rfl) hfar, hset⟩
  | @sigterm trusted p hp =>
    obtain ⟨hmgr, hchildren⟩ := step_sigterm hp
    refine ⟨?_, ?_, ?_, ?_⟩ <;> simp only [hmgr, ended, hchildren]
    · exact fun hpc ht hi => h.child hpc ht (Bool.or_eq_false_iff.mp hi).1
    · exact h.killed
    · intro hpc ht hi hset
      obtain ⟨hi, hb⟩ := Bool.or_eq_false_iff.mp hi
      cases hunset : w.proc.mgr.processStop with
      | true => exact h.stop hpc ht hi hunset
      | false =>
        -- the handler has set the flag: it would not be timely
        obtain rfl : trusted = true := by simpa [hunset] using hset
        simp [timely, nears, hunset, hpc, hb, ht] at htimely
    · exact fun hc => Bool.or_eq_true_iff.mpr (Or.inl (h.set hc))
  | code hwait hterm hp => exact h.code hheard hterm hp (hheard.blocked_eq_false hwait hterm hp)
  | exit hp =>
    have hmgr := step_exit hp
    -- its SIGCHLD is on the way
    refine ⟨fun _ _ _ _ => rfl, ?_, ?_, ?_⟩ <;> simp only [hmgr]
    · exact h.killed
    · exact h.stop
    · exact h.set

/-! ### Lost wake-ups -/

theorem told_step {o o' : Machine.Observed Polling Bool}
    (h : Heard o.state ∧ Told o.state o.seen) (htimely : o.state.timely ev = true)
    (hstep : Machine.observe (step E) lastCheck o ev = some o') :
    Heard o'.state ∧ Told o'.state o'.seen := by
  obtain ⟨hproc, hseen⟩ := Machine.observe_eq_some.mp hstep
  have hproc := step_cases hproc
  rw [hseen]
  exact ⟨h.1.step hproc, h.2.step h.1 htimely hproc⟩

theorem told_always {o : Machine.Observed Polling Bool} {evs : List PollEvent}
    (h : Heard o.state ∧ Told o.state o.seen)
    (hmeet : Machine.StepsMeet (Machine.observe (step E) lastCheck)
      (fun o ev => o.state.timely ev = true) o evs) :
    Machine.Always (Machine.observe (step E) lastCheck)
      (fun o => Heard o.state ∧ Told o.state o.seen) o evs :=
  Machine.always_of_stepsMeet (fun _ _ _ h htimely hstep => told_step h htimely hstep)
    (fun _ h => h) h hmeet

/-- **No wake-up is lost, if every signal is timely.** In a run whose signals all are, the
manager never sleeps in `epoll_wait` on a SIGCHLD or a `process_stop` that it could have
seen. -/
theorem awake_of_timely {fd : ℕ} {evs : List PollEvent}
    (hmeet : Machine.StepsMeet (Machine.observe (step E) lastCheck)
      (fun o ev => o.state.timely ev = true) ⟨start fd, false⟩ evs) :
    Machine.Always (Machine.observe (step E) lastCheck) (fun o => Awake o.state o.seen)
      ⟨start fd, false⟩ evs :=
  Machine.always_of_stepsMeet (fun _ _ _ h htimely hstep => told_step h htimely hstep)
    (fun _ h => h.2.awake h.1) ⟨Heard.start fd, Told.start fd⟩ hmeet

/-! ### The condition cannot be less -/

/-- A run of the code to the `epoll_wait` that blocks. -/
def Blocks (E : Env) (w : Polling) : Prop :=
  ∃ evs p, (∀ ev ∈ evs, PollEvent.quiet ev = true) ∧
    Machine.exec (step E) w evs = some { w with proc := p, blocked := true } ∧
    p.children = w.proc.children ∧ p.mgr.synTimeout = w.proc.mgr.synTimeout

theorem Blocks.of_epollWait (hpc : w.proc.mgr.pc = .epollWait) (hb : w.blocked = false) :
    Blocks E w :=
  ⟨[.block], w.proc, by simp [PollEvent.quiet], by simp [Machine.exec, step, hpc, hb], rfl, rfl⟩

/-- One step of the code before that, which goes on to `pc` and changes nothing else. -/
theorem Blocks.cons (l : Label) (pc : Pc) (hl : l = .tau ∨ ∃ pid, l = .kill pid)
    (hm : Manager.step E w.proc.mgr l = some (w.proc.mgr.goto pc))
    (h : ∀ hi, Blocks E { w with proc := ⟨w.proc.mgr.goto pc, w.proc.children, hi⟩ }) :
    Blocks E w := by
  obtain ⟨evs, p, hquiet, hrun, hch, ht⟩ := h (w.proc.histAfter E l)
  have hstep : step E w (.proc (.mgr l)) =
      some { w with proc := ⟨w.proc.mgr.goto pc, w.proc.children, w.proc.histAfter E l⟩ } := by
    rcases hl with rfl | ⟨pid, rfl⟩ <;> simp [step, Proc.step, Proc.admits, hm, Proc.childrenAfter]
  refine ⟨.proc (.mgr l) :: evs, p, ?_, Machine.exec_cons_eq_some.mpr ⟨_, hstep, hrun⟩, hch, ht⟩
  rcases hl with rfl | ⟨pid, rfl⟩ <;> simpa [PollEvent.quiet] using hquiet

/-- While a command runs the loop goes on to `epoll_wait`. -/
theorem Blocks.of_approaching (hpc : w.proc.mgr.pc.approaching = true) (hb : w.blocked = false)
    (hrun : w.proc.mgr.childStatus = .procRunning) : Blocks E w := by
  -- from the back: `stop_child`, the check before it, and the point before the check
  have hkill : ∀ v : Polling, v.proc.mgr.pc = .stopChild .loop → v.blocked = false →
      v.proc.mgr.childStatus = .procRunning → Blocks E v := fun v hv hvb hvr =>
    .cons (.kill v.proc.mgr.clonepid) .epollWait (Or.inr ⟨_, rfl⟩)
      (by simp [Manager.step, Manager.codeStep, hv, Manager.stopChild, hvr, StopRet.pc])
      fun _ => .of_epollWait rfl hvb
  have hcheck : ∀ v : Polling, v.proc.mgr.pc = .stopCheck → v.blocked = false →
      v.proc.mgr.childStatus = .procRunning → Blocks E v := fun v hv hvb hvr => by
    cases hstop : v.proc.mgr.processStop with
    | true =>
      exact .cons .tau (.stopChild .loop) (Or.inl rfl)
        (by simp [Manager.step, Manager.codeStep, hv, Manager.managerStart, hstop])
        fun _ => hkill _ rfl hvb hvr
    | false =>
      exact .cons .tau .epollWait (Or.inl rfl)
        (by simp [Manager.step, Manager.codeStep, hv, Manager.managerStart, hstop])
        fun _ => .of_epollWait rfl hvb
  unfold Pc.approaching at hpc
  split at hpc
  · next hv =>
    exact .cons .tau .stopCheck (Or.inl rfl)
      (by simp [Manager.step, Manager.codeStep, hv, Manager.managerStart, Manager.loopCheck,
        Manager.execOver, hrun])
      fun _ => hcheck _ rfl hb hrun
  · next hv => exact hcheck w hv hb hrun
  · next hv => exact hkill w hv hb hrun
  · next hv => exact .of_epollWait hv hb
  · cases hpc

theorem nears_iff {points : Pc → Bool} :
    w.nears points = true ↔
      points w.proc.mgr.pc = true ∧ w.blocked = false ∧ w.proc.mgr.synTimeout = -1 := by
  simp [nears, and_assoc]

/-- After a SIGCHLD that comes too late the loop can go on to sleep on it. -/
theorem lost_of_sigchld (h : Heard w) (hlate : w.ended = true)
    (hnear : w.nears Pc.approaching = true) (hstep : Step E w .sigchld w') :
    ∃ evs v, (∀ ev ∈ evs, PollEvent.quiet ev = true) ∧ Machine.exec (step E) w' evs = some v ∧
      ∀ checked, ¬ Awake v checked := by
  obtain ⟨hpc, hb, ht⟩ := nears_iff.mp hnear
  cases hstep with
  | sigchld hpending =>
    -- the child that has ended is the running command
    obtain ⟨⟨pid, life⟩, hmem, -⟩ := List.any_eq_true.mp hlate
    obtain ⟨hrun, -⟩ := h.core.mem_children hmem
    obtain ⟨evs, p, hquiet, hexec, hch, ht'⟩ := Blocks.of_approaching (E := E)
      (w := { w with sigchld := false, interrupted := w.interrupted || w.blocked }) hpc hb hrun
    refine ⟨evs, _, hquiet, hexec, fun checked hawake => Bool.false_ne_true (hawake.child ?_ ?_)⟩
    · simp [sleeping, hb, h.interrupted_eq_false hb, ht', ht]
    · rw [ended, hch]
      exact hlate

/-- After a SIGTERM that comes too late the loop can go on to sleep on it. -/
theorem lost_of_sigterm (h : Heard w) (hnear : w.nears (· = .epollWait) = true)
    (hstep : Step E w (.proc (.mgr (.sigterm true))) w') :
    ∃ v, step E w' .block = some v ∧ ¬ Awake v false := by
  obtain ⟨hpc, hb, ht⟩ := nears_iff.mp hnear
  have hpc := of_decide_eq_true hpc
  cases hstep with
  | code hwait hterm => exact absurd rfl (hterm true)
  | @sigterm _ p hp =>
    obtain ⟨hmgr, -⟩ := step_sigterm hp
    refine ⟨_, if_pos ⟨by rw [hmgr]; exact hpc, hb⟩, fun hawake =>
      Bool.false_ne_true (hawake.stop ?_ ?_)⟩
    · simp [sleeping, hb, h.interrupted_eq_false hb, hmgr, ht]
    · simp [hmgr]

theorem timely_of_quiet (h : PollEvent.quiet ev = true) : w.timely ev = true := by
  unfold timely
  split
  · cases h
  · cases h
  · rfl

/-- **The condition is exact.** Let all signals of a run have been timely. Then the next
signal is timely if and only if no wake-up is lost however the code goes on after it, as
long as no other signal comes. -/
theorem timely_iff {fd : ℕ} {evs : List PollEvent} {o o' : Machine.Observed Polling Bool}
    (hrun : Machine.exec (Machine.observe (step E) lastCheck) ⟨start fd, false⟩ evs = some o)
    (hmeet : Machine.StepsMeet (Machine.observe (step E) lastCheck)
      (fun o ev => o.state.timely ev = true) ⟨start fd, false⟩ evs)
    (hstep : Machine.observe (step E) lastCheck o ev = some o') :
    o.state.timely ev = true ↔ ∀ evs' o'', (∀ ev ∈ evs', PollEvent.quiet ev = true) →
      Machine.exec (Machine.observe (step E) lastCheck) o' evs' = some o'' →
      Awake o''.state o''.seen := by
  have htold := (told_always ⟨Heard.start fd, Told.start fd⟩ hmeet).last hrun
  constructor
  case mp =>
    intro htimely evs' o'' hquiet hrun'
    -- without signals every step is timely
    have hmeet' : Machine.StepsMeet (Machine.observe (step E) lastCheck)
        (fun o ev => o.state.timely ev = true) o' evs' :=
      .imp (I := fun _ => True) (fun _ _ _ _ _ => trivial)
        (fun _ _ _ hq => timely_of_quiet hq) trivial
        ((Machine.stepsMeet_iff_forall hrun').mpr hquiet)
    have hlast := (told_always (told_step htold htimely hstep) hmeet').last hrun'
    exact hlast.2.awake hlast.1
  case mpr =>
    intro hawake
    obtain ⟨hproc, hseen⟩ := Machine.observe_eq_some.mp hstep
    by_contra hlate
    -- one that is not timely is a late SIGCHLD or a late SIGTERM
    unfold timely at hlate
    split at hlate
    · obtain ⟨hended, hnear⟩ : o.state.ended = true ∧ o.state.nears Pc.approaching = true := by
        simpa using hlate
      obtain ⟨evs', v, hquiet, hexec, hlost⟩ :=
        lost_of_sigchld htold.1 hended hnear (step_cases hproc)
      obtain ⟨checked, hexec⟩ := Machine.exec_observe o'.seen hexec
      exact hlost checked (hawake evs' _ hquiet hexec)
    · obtain ⟨hunset, hnear⟩ : o.state.proc.mgr.processStop = false ∧
          o.state.nears (· = .epollWait) = true := by simpa using hlate
      obtain ⟨v, hblock, hlost⟩ := lost_of_sigterm htold.1 hnear (step_cases hproc)
      -- the last check has seen the flag unset
      have hunseen : o'.seen = false := by
        refine Bool.eq_false_iff.mpr fun hc => ?_
        have hset := htold.2.set (hseen.symm.trans hc)
        rw [hunset] at hset
        cases hset
      refine hlost (hawake [.block] ⟨v, false⟩ (by simp [PollEvent.quiet]) ?_)
      refine Machine.exec_cons_eq_some.mpr ⟨_, Machine.observe_eq_some.mpr ⟨hblock, ?_⟩, rfl⟩
      exact hunseen.symm
    · exact hlate rfl

/-! ### A backend command -/

/-- The encoding of an EXE message for `/bin/ls` as a backend command. -/
def lsBackendData : Chunk where
  bytes := [0x1a, 11, 0x0a, 7, 0x2f, 0x62, 0x69, 0x6e, 0x2f, 0x6c, 0x73, 0x58, 1]
  pos := by decide
  le := by decide

/-- The command ends while `epoll_wait` blocks: its SIGCHLD interrupts the call. -/
def wokenEvents : List PollEvent :=
  (Proc.backendLabels lsBackendData ++ [Label.waitpid none, .tau, .tau]).map (.proc ∘ .mgr) ++
    [.block, .proc (.exit 100 (.exited 0)), .sigchld, .proc (.mgr (.epollWait .eintr))]

theorem awake_of_timely_woken :
    Machine.Always (Machine.observe (step Proto3.env) lastCheck) (fun o => Awake o.state o.seen)
      ⟨start 5, false⟩ wokenEvents :=
  awake_of_timely (by decide +kernel)

/-- The command ends between `waitpid` and `epoll_wait`: the manager sleeps on its end. -/
theorem not_awake :
    ¬ ∀ evs o, Machine.exec (Machine.observe (step Proto3.env) lastCheck) ⟨start 5, false⟩ evs =
      some o → Awake o.state o.seen := by
  intro hawake
  obtain ⟨o, hrun, ho⟩ := Machine.exec_of_any
    (show (Machine.exec (Machine.observe (step Proto3.env) lastCheck) ⟨start 5, false⟩
      ((Proc.backendLabels lsBackendData ++ [Label.waitpid none]).map (.proc ∘ .mgr) ++
        [.proc (.exit 100 (.exited 0)), .sigchld, .proc (.mgr .tau), .proc (.mgr .tau),
          .block])).any
      (fun o => o.state.sleeping && o.state.ended && !o.state.sigchld) = true by decide +kernel)
  simp only [Bool.and_eq_true, Bool.not_eq_true'] at ho
  have hcome := (hawake _ o hrun).child ho.1.1 ho.1.2
  rw [ho.2] at hcome
  cases hcome

end Polling
end Srun
