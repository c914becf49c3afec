import Srun.Manager.Cases
import Srun.Framework.Machine

/-!
# A manager process and its children

`Proc` puts a manager next to what the kernel keeps for it, the list of its
children that have not been reaped, and to a history of what has happened on its
connection. A step is a step of the manager whose result the kernel can give
(`Proc.admits`), or the end of a child.

`wait_child` calls `waitpid(-1)`, so the children are a list: that a manager never
has two of them is proved (`Core`), not built in.

The history is never read by the manager. It records what statements about runs
speak of: the messages sent and received, the commands cloned, the answers given,
the registry files written, the timer events handled.
-/

namespace Srun

/-- A child that has not been reaped: it runs, or it has ended. -/
inductive Life
  | alive
  | zombie (st : WaitStatus)
  deriving DecidableEq

/-- Children are compared as pairs. -/
instance : LawfulBEq (Int × Life) := inferInstance

/-- How far the command is at some moment. -/
inductive Phase
  | running
  | ended
  | reaped
  deriving DecidableEq

/-- A result sent from the main loop, with what had happened until then: the
phases of the command in which timer events were handled, and how it ended. -/
structure Answer where
  response : Response
  timers : List Phase
  ended : Option WaitStatus
  deriving DecidableEq

/-- A cloned command: its pid, the bytes of its EXE message, and whether
`handle_request` has completed for it. -/
structure Command where
  pid : Int
  data : Bytes
  completed : Bool
  deriving DecidableEq

/-- What has happened on a connection. -/
structure History where
  sent : List Message := []
  received : List Message := []
  /-- The number of commands cloned. -/
  clones : ℕ := 0
  /-- The number of EXE responses sent for cloned commands. -/
  answered : ℕ := 0
  results : List Answer := []
  /-- The pids whose registry files this manager has created and not unlinked. -/
  registered : List Int := []
  timers : List Phase := []
  ended : Option WaitStatus := none
  command : Option Command := none
  deriving DecidableEq

/-- A manager process, its unreaped children and its history. -/
structure Proc where
  mgr : Manager
  children : List (Int × Life) := []
  hist : History := {}

/-- What can happen to a manager process. -/
inductive Event
  | mgr (l : Label)
  /-- The child `pid` ends. -/
  | exit (pid : Int) (st : WaitStatus)

namespace Proc

/-- The daemon's fork for the connection `fd`, at the start of `manager_start`. -/
def start (fd : ℕ) : Proc := { mgr := { connection := fd } }

def pids (p : Proc) : List Int := p.children.map Prod.fst

/-- The results that the kernel can give: `waitpid` returns a child that has
ended, if there is one, and `clone` fails or returns a new positive pid. -/
def admits (p : Proc) : Label → Bool
  -- `waitpid(-1, ., WNOHANG)` finds nothing only when no child has ended
  | .waitpid none => p.children.all (·.2 = .alive)
  | .waitpid (some (pid, st)) => (pid, .zombie st) ∈ p.children
  | .clone pid => pid = -1 || 0 < pid && pid ∉ p.pids
  | _ => true

def childrenAfter (p : Proc) : Label → List (Int × Life)
  | .waitpid (some (pid, st)) => p.children.erase (pid, .zombie st)
  | .clone pid => if pid = -1 then p.children else (pid, .alive) :: p.children
  | _ => p.children

/-- How far the command is. -/
def phase (p : Proc) : Phase :=
  if p.mgr.childStatus ≠ .procRunning then .reaped
  else if (p.mgr.clonepid, .alive) ∈ p.children then .running else .ended

/-- The history after a message has been written. -/
def histSent (h : History) (m : Message) (k : SendRet) : History :=
  let h := { h with sent := h.sent ++ [m] }
  match k with
  | .result =>
    { h with answered := h.answered + 1
             results := h.results ++ [⟨m.getResponse, h.timers, h.ended⟩] }
  | .started _ =>
    { h with answered := h.answered + 1
             command := h.command.map ({ · with completed := true }) }
  | _ => h

/-- The history after a step of the manager. -/
def histAfter (E : Env) (p : Proc) (l : Label) : History :=
  let h := p.hist
  match p.mgr.pc, l with
  | .recv data _, .read none =>
    -- end of file without data is a disconnect, and what does not parse is not received
    if data = [] then h else { h with received := h.received ++ (E.parse data).toList }
  | .handle .clone data _, .clone pid =>
    if pid = -1 then h
    else { h with clones := h.clones + 1, command := some ⟨pid, data, false⟩ }
  | .handle .create _ _, .regCreate pid true => { h with registered := pid :: h.registered }
  | .handle .reply _ _, .tau =>
    -- a foreground command is not answered here, but its request is complete
    if p.mgr.request.backend then h
    else { h with command := h.command.map ({ · with completed := true }) }
  | .clear .unlink _ _, .unlink pid => { h with registered := h.registered.filter (· ≠ pid) }
  -- with or without a command to kill, the timer event has been handled
  | .stopChild (.timer _), .kill _ | .stopChild (.timer _), .tau =>
    { h with timers := h.timers ++ [p.phase] }
  -- a short write is a lost message: `send_message` throws
  | .send m k, .write data (.wrote n) => if n = data.length then histSent h m k else h
  | _, _ => h

/-- One step of a manager process. -/
def step (E : Env) (p : Proc) : Event → Option Proc
  | .mgr l =>
    if p.admits l then
      (Manager.step E p.mgr l).map fun m =>
        { mgr := m, children := p.childrenAfter l, hist := p.histAfter E l }
    else none
  | .exit pid st =>
    if (pid, .alive) ∈ p.children ∧ st ≠ .other then
      some { p with
        children := p.children.map fun c => if c = (pid, .alive) then (pid, .zombie st) else c
        hist.ended := some st }
    else none

/-- The steps of a manager process, by cases. -/
inductive Step (E : Env) (p : Proc) : Event → Proc → Prop
  | mgr {l : Label} {m : Manager} (hadm : p.admits l) (hm : Manager.Step E p.mgr l m) :
      Step E p (.mgr l) { mgr := m, children := p.childrenAfter l, hist := p.histAfter E l }
  | exit {pid : Int} {st : WaitStatus} (hc : (pid, .alive) ∈ p.children) (hst : st ≠ .other) :
      Step E p (.exit pid st) { p with
        children := p.children.map fun c => if c = (pid, .alive) then (pid, .zombie st) else c
        hist.ended := some st }

variable {E : Env} {p p' : Proc}

theorem step_manager {l : Label} (hstep : p.step E (.mgr l) = some p') :
    Manager.step E p.mgr l = some p'.mgr := by
  rw [Proc.step] at hstep
  split at hstep
  · obtain ⟨s, hs, rfl⟩ := Option.map_eq_some_iff.mp hstep
    exact hs
  · cases hstep

theorem step_cases {ev : Event} (h : p.step E ev = some p') : Step E p ev p' := by
  cases ev with
  | mgr l =>
    simp only [step] at h
    split at h
    · next hadm =>
      obtain ⟨m, hm, rfl⟩ := Option.map_eq_some_iff.mp h
      exact .mgr hadm (Manager.step_cases hm)
    · cases h
  | exit pid st =>
    simp only [step] at h
    split at h
    · next hc => cases h; exact .exit hc.1 hc.2
    · cases h

/-! ### Labels that leave the children alone -/

/-- Only `waitpid` and `clone` change the list of children. -/
theorem childrenAfter_of_ne {l : Label} (hw : ∀ r, l ≠ .waitpid (some r))
    (hc : ∀ pid, l ≠ .clone pid) :
    p.childrenAfter l = p.children := by
  cases l <;> try rfl
  case waitpid r =>
    cases r with
    | none => rfl
    | some r => exact absurd rfl (hw r)
  case clone pid => exact absurd rfl (hc pid)

theorem childrenAfter_of_throwing {l : Label} (h : l.throwing = true) :
    p.childrenAfter l = p.children :=
  childrenAfter_of_ne (fun r hr => by rw [hr] at h; cases h) (fun r hr => by rw [hr] at h; cases h)

/-! ### An undisturbed run

The labels of a manager that starts on connection 5 and of one that accepts a
command in its loop, when every call succeeds. Runs at concrete inputs are put
together from these. -/

def bootLabels : List Label :=
  [.epollCreate1 6, .epollAdd 5 true, .waitpid none, .tau, .tau]

/-- From `epoll_wait` through `recv_message` to the entry of what it calls. -/
def receiveLabels (data : Chunk) : List Label :=
  [.epollWait (.ready [5]), .tau, .read (some data), .read none]

/-- `handle_request` with default limits and the timer on descriptor 7, and back
to `epoll_wait`. -/
def handleLabels (data : Bytes) (pid : Int) : List Label :=
  [.tau, .lookup (some fun _ => .file), .load true none, .load true none, .clone pid,
   .createLeaf pid true, .writeCgroup pid .memlimit "100M" .complete,
   .memswExists pid (some false), .writeCgroup pid .procs (toString pid) .complete,
   .writeCgroup pid .notify "1" .complete, .flock .ex, .regCreate pid true,
   .regWrite pid data .complete, .flock .un, .bind (-1) true, .bind (-1) true,
   .timerfdCreate 7, .timerfdSettime 600 true, .epollAdd 7 true, .tau]

/-- From the end of a batch of events to `epoll_wait`. -/
def loopLabels : List Label := [.tau, .waitpid none, .tau, .tau]

/-- An EXE message for `/bin/ls`. -/
def lsMessage : Message := { request := some { args := ["/bin/ls"] } }

/-- Its encoding. -/
def lsData : Chunk where
  bytes := [0x1a, 9, 0x0a, 7, 0x2f, 0x62, 0x69, 0x6e, 0x2f, 0x6c, 0x73]
  pos := by decide
  le := by decide

/-- The encoding of a LIST message. -/
def listData : Chunk where
  bytes := [8, 3]
  pos := by decide
  le := by decide

/-- The encoding of an ACK message. -/
def ackData : Chunk where
  bytes := [8, 2]
  pos := by decide
  le := by decide

/-- The manager starts the backend command of `data` as process 100, tells the client, and
is about to call `wait_child`. -/
def backendLabels (data : Chunk) : List Label :=
  bootLabels ++ receiveLabels data ++
    [.tau, .lookup (some fun _ => .file), .load true none, .load true none, .clone 100,
      .createLeaf 100 true, .writeCgroup 100 .memlimit "100M" .complete,
      .memswExists 100 (some false), .writeCgroup 100 .procs "100" .complete,
      .writeCgroup 100 .notify "1" .complete, .flock .ex, .regCreate 100 true,
      .regWrite 100 data.bytes .complete, .flock .un, .bind (-1) true, .bind (-1) true,
      .timerfdCreate 7, .timerfdSettime 7200 true, .epollAdd 7 true, .tau,
      .write [0x12, 0] (.wrote 2), .tau]

/-- From `epoll_wait`, woken by SIGCHLD, through `wait_child` when it reaps `pid`. -/
def reapLabels (pid : Int) (st : WaitStatus) : List Label :=
  [.epollWait .eintr, .tau, .waitpid (some (pid, st)), .flock .ex, .unlink pid, .flock .un,
   .rmdir pid, .waitpid none]

/-- The manager serves `/bin/ls` and waits. -/
def lsLabels : List Label :=
  bootLabels ++ receiveLabels lsData ++ handleLabels lsData.bytes 100 ++ loopLabels

/-- `/bin/ls` ends as `st` and is reaped. -/
def lsEndEvents (st : WaitStatus) : List Event :=
  .exit 100 st :: (reapLabels 100 st).map .mgr

end Proc
end Srun
