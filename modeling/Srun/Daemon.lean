import Srun.Manager.State
import Srun.Framework.Observer

/-!
# The accept loop of the daemon

The loop of `main` in `srund.cpp`: accept a connection, fork a manager for it, accept
again. SIGTERM from process 1 sets `process_stop`, and the loop looks at it only after an
`accept4` that the signal has interrupted. A signal that arrives while the daemon is not
blocked in `accept4` is therefore noticed with the next interruption only, and until then
the daemon accepts and forks as before.

The observer keeps, from the moment the handler sets `process_stop`, whether a connection
was in hand, and the calls of `fork` since. `forks_stop` says that the daemon keeps to the
one connection in hand as long as `accept4` returns no further one.
-/

namespace Srun

/-- What `accept4` returns. -/
inductive Accept4
  | connection (fd : ℕ)
  /-- ECONNABORTED. -/
  | aborted
  | eintr
  /-- Any other error. -/
  | failed
  deriving DecidableEq

/-- Program points of the loop and of what follows it. -/
inductive DaemonPc
  | accept
  /-- The loop over `waitpid` after EINTR. -/
  | reap
  /-- `if (process_stop)`. -/
  | stopCheck
  | fork (fd : ℕ)
  /-- The parent after the fork. -/
  | close (fd : ℕ)
  /-- `clear_resource`, after the loop or in the handler of `main`. -/
  | clear (result : Int)
  /-- `main` has returned. -/
  | returned (result : Int)
  deriving DecidableEq

/-- The daemon in its loop. -/
structure Daemon where
  processStop : Bool := false
  pc : DaemonPc := .accept
  deriving DecidableEq

/-- What the daemon does in one step. -/
inductive DaemonLabel
  | tau
  /-- SIGTERM from the process `pid`. -/
  | sigterm (pid : Int)
  | sigchld
  | accept4 (r : Accept4)
  | waitpid (r : Option (Int × WaitStatus))
  /-- `fork` fails, or returns the pid of the manager to the daemon. -/
  | fork (pid : Int)
  | close (fd : ℕ)
  | clearResource
  deriving DecidableEq

/-- The connections that a step adds. -/
def DaemonLabel.connections : DaemonLabel → ℕ
  | .accept4 (.connection _) => 1
  | _ => 0

namespace Daemon

def goto (d : Daemon) (pc : DaemonPc) : Daemon := { d with pc := pc }

/-- The loop of `main`. The manager that `fork` makes does not come back to it: it ends
in `manager_start`, or returns from `main`. -/
def loop (d : Daemon) : DaemonPc → DaemonLabel → Option Daemon
  | .accept, .accept4 (.connection fd) => some (d.goto (.fork fd))
  | .accept, .accept4 .aborted => some (d.goto .accept)
  | .accept, .accept4 .eintr => some (d.goto .reap)
  | .accept, .accept4 .failed => some (d.goto (.clear (-1)))
  | .reap, .waitpid (some _) => some (d.goto .reap)
  | .reap, .waitpid none => some (d.goto .stopCheck)
  | .stopCheck, .tau => some (d.goto (if d.processStop then .clear 0 else .accept))
  | .fork fd, .fork pid =>
    if pid = -1 then some (d.goto (.clear (-1)))
    else if 0 < pid then some (d.goto (.close fd)) else none
  | .close fd, .close fd' => if fd' = fd then some (d.goto .accept) else none
  | .clear result, .clearResource => some (d.goto (.returned result))
  | _, _ => none

/-- One step: a signal handler, which runs at any point, or the loop. -/
def step (d : Daemon) : DaemonLabel → Option Daemon
  | .sigterm pid =>
    if d.pc matches .returned _ then none
    else some { d with processStop := d.processStop || pid = 1 }
  | .sigchld => if d.pc matches .returned _ then none else some d
  | l => d.loop d.pc l

variable {d d' : Daemon} {l : DaemonLabel}

/-- The steps of the daemon, by name. -/
inductive Step (d : Daemon) : DaemonLabel → Daemon → Prop
  | sigterm (pid : Int) :
      Step d (.sigterm pid) { d with processStop := d.processStop || pid = 1 }
  | sigchld : Step d .sigchld d
  | connection (fd : ℕ) (hpc : d.pc = .accept) :
      Step d (.accept4 (.connection fd)) (d.goto (.fork fd))
  | aborted (hpc : d.pc = .accept) : Step d (.accept4 .aborted) (d.goto .accept)
  | eintr (hpc : d.pc = .accept) : Step d (.accept4 .eintr) (d.goto .reap)
  | failed (hpc : d.pc = .accept) : Step d (.accept4 .failed) (d.goto (.clear (-1)))
  | reaped (r : Int × WaitStatus) (hpc : d.pc = .reap) : Step d (.waitpid (some r)) (d.goto .reap)
  | allReaped (hpc : d.pc = .reap) : Step d (.waitpid none) (d.goto .stopCheck)
  | stop (hpc : d.pc = .stopCheck) (hstop : d.processStop = true) : Step d .tau (d.goto (.clear 0))
  | resume (hpc : d.pc = .stopCheck) (hstop : d.processStop = false) :
      Step d .tau (d.goto .accept)
  | forkFailed {fd : ℕ} (hpc : d.pc = .fork fd) : Step d (.fork (-1)) (d.goto (.clear (-1)))
  | forked {fd : ℕ} (pid : Int) (hpc : d.pc = .fork fd) : Step d (.fork pid) (d.goto (.close fd))
  | closed {fd : ℕ} (hpc : d.pc = .close fd) : Step d (.close fd) (d.goto .accept)
  | cleared {result : Int} (hpc : d.pc = .clear result) :
      Step d .clearResource (d.goto (.returned result))

/-- The list is complete. -/
theorem loop_cases (h : d.loop d.pc l = some d') : Step d l d' := by
  -- by the point of the loop; each point has one system call
  unfold loop at h
  split at h
  case h_1 hpc => cases h; exact .connection _ hpc
  case h_2 hpc => cases h; exact .aborted hpc
  case h_3 hpc => cases h; exact .eintr hpc
  case h_4 hpc => cases h; exact .failed hpc
  case h_5 hpc => cases h; exact .reaped _ hpc
  case h_6 hpc => cases h; exact .allReaped hpc
  case h_7 hpc =>
    cases h
    cases hstop : d.processStop with
    | true => exact .stop hpc hstop
    | false => exact .resume hpc hstop
  case h_8 hpc =>
    split at h
    · next heq => cases h; subst heq; exact .forkFailed hpc
    · split at h
      · cases h; exact .forked _ hpc
      · cases h
  case h_9 hpc =>
    split at h
    · next heq => cases h; subst heq; exact .closed hpc
    · cases h
  case h_10 hpc => cases h; exact .cleared hpc
  case h_11 => cases h

theorem step_cases (h : d.step l = some d') : Step d l d' := by
  cases l with
  | sigterm pid =>
    simp only [step] at h
    split at h
    · cases h
    · cases h; exact .sigterm pid
  | sigchld =>
    simp only [step] at h
    split at h
    · cases h
    · cases h; exact .sigchld
  | _ => exact loop_cases h

/-! ### Forks after the stop -/

/-- A connection has been accepted and `fork` has not been called for it. -/
def inHand (d : Daemon) : ℕ :=
  match d.pc with
  | .fork _ => 1
  | _ => 0

/-- What counts from the moment `process_stop` is set. -/
structure Stop where
  /-- The connections in hand at that moment. -/
  inHand : ℕ
  /-- The calls of `fork` since. -/
  forks : ℕ
  deriving DecidableEq

/-- The record after a step. -/
def stops (d : Daemon) (l : DaemonLabel) (d' : Daemon) : Option Stop → Option Stop
  | none => if d'.processStop then some ⟨d.inHand, 0⟩ else none
  | some c =>
    match l with
    | .fork _ => some { c with forks := c.forks + 1 }
    | _ => some c

/-- The daemon has forked for the connection in hand at most. -/
def Stopped (stop : Option Stop) : Prop := ∀ c ∈ stop, c.forks ≤ c.inHand

/-- `accept4` returns no connection once `process_stop` is set. -/
def Quiet (d : Daemon) (l : DaemonLabel) : Prop := d.processStop = true → l.connections = 0

instance (d : Daemon) (l : DaemonLabel) : Decidable (Quiet d l) :=
  inferInstanceAs (Decidable (d.processStop = true → l.connections = 0))

/-- The handler sets `process_stop`, and nothing resets it. -/
theorem Step.processStop (hstep : Step d l d') (h : d.processStop = true) :
    d'.processStop = true := by
  cases hstep with
  | sigterm pid => exact Bool.or_eq_true_iff.mpr (Or.inl h)
  | _ => exact h

/-- **Balance.** Every connection that is accepted is forked for: the calls of `fork` and
the connection in hand grow together by the connections accepted. -/
theorem Step.balance (hstep : Step d l d') (c : Stop) :
    ∃ c', stops d l d' (some c) = some c' ∧ c'.inHand = c.inHand ∧
      c'.forks + d'.inHand = c.forks + d.inHand + l.connections := by
  cases hstep with
  | forkFailed hpc | forked pid hpc =>
    refine ⟨_, rfl, rfl, ?_⟩
    simp only [inHand, goto, hpc, DaemonLabel.connections]
  | connection fd hpc =>
    refine ⟨_, rfl, rfl, ?_⟩
    simp only [inHand, goto, hpc, DaemonLabel.connections]
  -- the handlers do nothing about connections
  | sigterm pid => exact ⟨_, rfl, rfl, rfl⟩
  | sigchld => exact ⟨_, rfl, rfl, rfl⟩
  | _ =>
    refine ⟨_, rfl, rfl, ?_⟩
    simp only [inHand, goto, ‹d.pc = _›, DaemonLabel.connections]

/-- What holds as long as every step is quiet: the forks and the connection in hand make
up the connection in hand at the stop. -/
def Balanced (o : Machine.Observed Daemon (Option Stop)) : Prop :=
  (o.seen = none → o.state.processStop = false) ∧
  ∀ c ∈ o.seen, o.state.processStop = true ∧ c.forks + o.state.inHand = c.inHand

/-- One connection more has been accepted, and stays so. -/
def Exceeded (o : Machine.Observed Daemon (Option Stop)) : Prop :=
  ∃ c ∈ o.seen, c.inHand < c.forks + o.state.inHand

variable {o o' : Machine.Observed Daemon (Option Stop)}

theorem Balanced.stopped (h : Balanced o) : Stopped o.seen := by
  intro c hc
  have := (h.2 c hc).2
  omega

/-- **One step.** A step of a balanced record leads to a balanced one when it is quiet, and
to one connection too many when it is not. -/
theorem Balanced.step (h : Balanced o) (hstep : Machine.observe step stops o l = some o') :
    (Quiet o.state l → Balanced o') ∧ (¬ Quiet o.state l → Exceeded o') := by
  obtain ⟨hd, hseen⟩ := Machine.observe_eq_some.mp hstep
  have hd := step_cases hd
  cases hc : o.seen with
  | none =>
    -- the record begins with this step at the earliest, and then the step is the handler
    have hrun := h.1 hc
    have hquiet : Quiet o.state l := by
      intro hstop
      rw [hrun] at hstop
      cases hstop
    refine ⟨fun _ => ?_, fun hno => absurd hquiet hno⟩
    rw [hc] at hseen
    simp only [stops] at hseen
    split at hseen
    · next hstop =>
      refine ⟨fun hnone => (by rw [hseen] at hnone; cases hnone), fun c hmem => ⟨hstop, ?_⟩⟩
      rw [hseen] at hmem
      obtain rfl := Option.some.inj hmem
      -- the handler leaves the connection in hand alone
      generalize o'.state = d' at *
      cases hd with
      | sigterm pid => exact Nat.zero_add _
      | _ => exact absurd hstop (by simp [goto, hrun])
    · next hstop =>
      exact ⟨fun _ => Bool.eq_false_iff.mpr hstop, fun c hmem => by rw [hseen] at hmem; cases hmem⟩
  | some c =>
    obtain ⟨hstop, hbalance⟩ := h.2 c hc
    obtain ⟨c', hc', hinHand, hforks⟩ := hd.balance c
    rw [hc, hc'] at hseen
    constructor
    · intro hquiet
      refine ⟨fun hnone => (by rw [hseen] at hnone; cases hnone), fun c₁ hmem => ?_⟩
      rw [hseen] at hmem
      obtain rfl := Option.some.inj hmem
      refine ⟨hd.processStop hstop, ?_⟩
      rw [hforks, hquiet hstop, hinHand, hbalance, Nat.add_zero]
    · intro hloud
      refine ⟨c', hseen, ?_⟩
      have hone : l.connections ≠ 0 := fun hzero => hloud fun _ => hzero
      rw [hforks, hinHand]
      omega

theorem Exceeded.step (h : Exceeded o) (hstep : Machine.observe step stops o l = some o') :
    Exceeded o' := by
  obtain ⟨hd, hseen⟩ := Machine.observe_eq_some.mp hstep
  obtain ⟨c, hc, hlt⟩ := h
  obtain ⟨c', hc', hinHand, hforks⟩ := (step_cases hd).balance c
  rw [Option.mem_def.mp hc, hc'] at hseen
  refine ⟨c', hseen, ?_⟩
  rw [hforks, hinHand]
  omega

/-- **The daemon stops, if no connection comes.** In a run of the accept loop in which
`accept4` returns no connection once `process_stop` is set, the daemon forks for the
connection in hand at most. In every other run that is not just about to fork, it has
forked for a further one. -/
theorem forks_stop {ls : List DaemonLabel}
    (hrun : Machine.exec (Machine.observe step stops) ⟨{}, none⟩ ls = some o) :
    (Machine.StepsMeet step Quiet {} ls →
      Machine.Always (Machine.observe step stops) (fun o => Stopped o.seen) ⟨{}, none⟩ ls) ∧
    (¬ Machine.StepsMeet step Quiet {} ls → (∀ fd, o.state.pc ≠ .fork fd) → ¬ Stopped o.seen) := by
  have hstart : Balanced ⟨{}, none⟩ := ⟨fun _ => rfl, fun c hc => (by cases hc)⟩
  have hmeet :
      Machine.StepsMeet (Machine.observe step stops) (fun o l => Quiet o.state l) ⟨{}, none⟩ ls ↔
        Machine.StepsMeet step Quiet {} ls := Machine.stepsMeet_observe
  constructor
  · intro hquiet
    apply Machine.always_of_stepsMeet (I := Balanced) ?_ ?_ hstart (hmeet.mpr hquiet)
    · intro o l o' h hq hstep
      exact (h.step hstep).1 hq
    · intro o h
      exact h.stopped
  · intro hloud hpc hstopped
    rcases Machine.meet_or_damaged (fun _ _ _ h hq hs => (Balanced.step h hs).1 hq)
      (fun _ _ _ h hq hs => (Balanced.step h hs).2 hq) (fun _ _ _ h hs => Exceeded.step h hs)
      hstart hrun with ⟨hquiet, -⟩ | ⟨-, c, hc, hlt⟩
    · exact hloud (hmeet.mp hquiet)
    · -- nothing is in hand, so that the connection has been forked for
      have hzero : o.state.inHand = 0 := by
        unfold inHand
        split
        · next fd heq => exact absurd heq (hpc fd)
        · rfl
      have := hstopped c hc
      omega

/-- SIGTERM arrives with a connection in hand, and `accept4` is interrupted next. -/
theorem forks_stop_eintr :
    Machine.Always (Machine.observe step stops) (fun o => Stopped o.seen) ⟨{}, none⟩
      [.accept4 (.connection 5), .sigterm 1, .fork 100, .close 5, .accept4 .eintr,
        .waitpid none, .tau, .clearResource] := by
  obtain ⟨o, hrun, -⟩ := Machine.exec_of_any
    (show (Machine.exec (Machine.observe step stops) ⟨{}, none⟩
      [.accept4 (.connection 5), .sigterm 1, .fork 100, .close 5, .accept4 .eintr,
        .waitpid none, .tau, .clearResource]).any (fun _ => true) = true by decide)
  exact (forks_stop hrun).1 (by decide)

/-- SIGTERM arrives just before `accept4` is called, and a client connects. -/
theorem not_forks_stop :
    ¬ ∀ ls o, Machine.exec (Machine.observe step stops) ⟨{}, none⟩ ls = some o →
      Stopped o.seen := by
  intro hstops
  obtain ⟨o, hrun, ho⟩ := Machine.exec_of_any
    (show (Machine.exec (Machine.observe step stops) ⟨{}, none⟩
      [.sigterm 1, .accept4 (.connection 5), .fork 100]).any
      (fun o => o.seen == some ⟨0, 1⟩) = true by decide)
  have hstopped := hstops _ o hrun ⟨0, 1⟩ (beq_iff_eq.mp ho)
  exact absurd hstopped (by decide)

end Daemon
end Srun
