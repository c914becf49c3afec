import Srun.Daemon
import Srun.Descriptors

/-!
# Descriptors of the daemon and its managers

Which process has which connection. The daemon opens a descriptor with each `accept4` and closes
it after the `fork`; the manager starts with a copy of the table as it is then, closes the
listening socket and opens its epoll instance. From then on its `Output` objects and its timer
come and go, until the client hangs up and after that. Daemon and managers take turns in any
order.

`Family.isolated` says where this ends, in every run: the daemon does not lose descriptors, a
manager has its own connection and neither that of another one nor the listening socket, and a
command has nothing of srund beside its outputs. For the last one nobody closes anything: all but
what the `Output` objects open has the flag CLOEXEC, so that `execv` closes it, and the ends of
the command's own pipes are closed by `dup`. What is left are the pipes and redirect files of
earlier commands of the same connection: a command inherits those that are still open.
-/

namespace Srun

variable {α : Type}

/-! ### The tables -/

/-- What a descriptor of srund refers to. -/
inductive SrundFile (α : Type)
  /-- `main` has been started with it. -/
  | started (a : α)
  | lock
  | listener
  /-- The connection that has been accepted as number `n`. -/
  | connection (n : ℕ)
  /-- The epoll instance of the manager for this connection. -/
  | epoll (n : ℕ)
  | timer (n : ℕ)
  /-- What an `Output` object of the manager for this connection has opened. -/
  | capture (n : ℕ) (f : OpenFile Empty)

/-- What `load` and `bind` open belongs to the manager that calls them. -/
def OpenFile.own (n : ℕ) : OpenFile (SrundFile α) → SrundFile α
  | .inherited f => f
  | .readEnd s => .capture n (.readEnd s)
  | .writeEnd s => .capture n (.writeEnd s)
  | .devNull s => .capture n (.devNull s)
  | .redirect s => .capture n (.redirect s)

/-- The file stays open over `execv`. `keeps` says so of what `main` has been started with. -/
def OpenFile.survives (keeps : α → Bool) : OpenFile (SrundFile α) → Bool
  | .inherited (.started a) => keeps a
  -- `pipe` and `open` without a flag
  | .inherited (.capture _ _) | .readEnd _ | .writeEnd _ | .devNull _ | .redirect _ => true
  -- O_CLOEXEC, SOCK_CLOEXEC, EPOLL_CLOEXEC, TFD_CLOEXEC
  | .inherited _ => false

/-- Where a stream is redirected to in FILE mode. -/
def CaptureStream.path : CaptureStream → Request → String
  | out, r => r.outfile
  | err, r => r.errfile

/-- How far a manager is with its descriptors. It comes to the two later points once each, and
its calls for commands belong to the last one. -/
inductive ManagerStage
  /-- `fork` has returned. -/
  | forked
  /-- The listening socket is closed. -/
  | apart
  /-- `epoll_create1` has been called. -/
  | polling
  deriving DecidableEq

/-- The descriptors of a manager, with the members that say which of them it uses: `fd`,
`timerfd`, and the two `Output` objects. -/
structure ManagerFds (α : Type) where
  /-- The number of its connection, and the descriptor. -/
  connection : ℕ
  fd : ℕ
  table : FdTable (SrundFile α)
  stage : ManagerStage := .forked
  /-- The client has not hung up. -/
  connected : Bool := true
  timerfd : Int := -1
  /-- `out` and `err`. -/
  outputs : CaptureStream → Output := fun _ => {}
  /-- No `Output` object has been used. -/
  fresh : Bool := true

/-- What a manager does with descriptors. When one of its calls fails, it ends. -/
inductive ManagerCall
  /-- `close(sockfd)` in `main`, -/
  | closeListener
  /-- and `epoll_create1` in `manager_start`. -/
  | epollCreate
  /-- `Output::load`, -/
  | load (s : CaptureStream) (r : Request)
  /-- `bind`, after the clone, -/
  | bind (s : CaptureStream)
  /-- and `receive`, when it finds the end of the stream. -/
  | receiveEnd (s : CaptureStream)
  /-- `timerfd_create` in `set_timeout`, -/
  | timer
  /-- and the timer has expired. -/
  | expired
  /-- `recv_message` finds the connection closed. -/
  | hangup

/-- The daemon in its loop, and the managers that it has forked. -/
structure Family (α : Type) where
  daemon : Daemon := {}
  table : FdTable (SrundFile α)
  /-- The number of connections that have been accepted. -/
  accepted : ℕ := 0
  managers : List (ManagerFds α) := []

/-- What can happen. -/
inductive FamilyEvent
  | daemon (l : DaemonLabel)
  /-- The manager at position `i` goes on. -/
  | manager (i : ℕ) (c : ManagerCall)
  /-- It ends. -/
  | ended (i : ℕ)

/-- `lockfd = open(...)` in `main`. -/
def locked (base : FdTable α) : FdTable (SrundFile α) := ((base.map .started).openFile .lock).2

/-- `sockfd = socket(...)`: the number, and the table with which the loop begins. -/
def sockfd (base : FdTable α) : ℕ := (locked base).free

def listening (base : FdTable α) : FdTable (SrundFile α) := ((locked base).openFile .listener).2

namespace ManagerFds

/-- The object for `s` has been used. -/
def used (m : ManagerFds α) (s : CaptureStream) (o : Output) (t : FdTable (SrundFile α)) :
    ManagerFds α :=
  { m with table := t, outputs := Function.update m.outputs s o, fresh := false }

def load (m : ManagerFds α) (s : CaptureStream) (r : Request) : ManagerFds α :=
  let p := Output.loadFds s (m.outputs s) (s.mode r) (s.path r) r.backend (m.table.map .inherited)
  m.used s p.1 (p.2.map (OpenFile.own m.connection))

def bind (m : ManagerFds α) (s : CaptureStream) : ManagerFds α :=
  let p := (m.outputs s).bindFds s (m.table.map .inherited)
  m.used s p.1 (p.2.map (OpenFile.own m.connection))

/-- `closefd(pipefd[0])` and `closefd(redirect_fd)`. What another `load` has put in the place of
these two is closed, and what was there before it stays open. -/
def receiveEnd (m : ManagerFds α) (s : CaptureStream) : ManagerFds α :=
  let o := m.outputs s
  m.used s { o with «over» := true, pipefd0 := -1, redirectFd := -1 }
    (closefd (closefd m.table o.pipefd0) o.redirectFd)

/-- One call of a manager. -/
def step (base : FdTable α) (m : ManagerFds α) (c : ManagerCall) : Option (ManagerFds α) :=
  match m.stage, c with
  | .forked, .closeListener =>
    some { m with table := m.table.close (sockfd base), stage := .apart }
  | .apart, .epollCreate =>
    some { m with table := (m.table.openFile (.epoll m.connection)).2, stage := .polling }
  | .polling, .load s r => some (m.load s r)
  | .polling, .bind s => some (m.bind s)
  | .polling, .receiveEnd s => some (m.receiveEnd s)
  | .polling, .timer =>
    let p := m.table.openFile (.timer m.connection)
    some { m with table := p.2, timerfd := p.1 }
  | .polling, .expired => some { m with table := closefd m.table m.timerfd, timerfd := -1 }
  | .polling, .hangup =>
    if m.connected then some { m with table := m.table.close m.fd, connected := false } else none
  | _, _ => none

/-- Nothing that has been opened for a command is open. -/
def Unburdened (m : ManagerFds α) : Prop := ∀ fd n f, m.table.file fd ≠ some (.capture n f)

end ManagerFds

namespace Family

/-- The daemon before its first `accept4`, when `main` has been started with the table `base`. -/
def start (base : FdTable α) : Family α := { table := listening base }

/-- `accept4` takes the lowest free number. -/
def admits (s : Family α) : DaemonLabel → Prop
  | .accept4 (.connection fd) => fd = s.table.free
  | _ => True

instance (s : Family α) (l : DaemonLabel) : Decidable (s.admits l) :=
  match l with
  | .accept4 (.connection fd) => inferInstanceAs (Decidable (fd = s.table.free))
  | .accept4 .aborted | .accept4 .eintr | .accept4 .failed | .tau | .sigterm _ | .sigchld
  | .waitpid _ | .fork _ | .close _ | .clearResource => isTrue trivial

/-- The descriptors after a step of the daemon. -/
def after (s : Family α) (d : Daemon) : DaemonLabel → Family α
  | .accept4 (.connection _) =>
    { s with
      daemon := d
      table := (s.table.openFile (.connection (s.accepted + 1))).2
      accepted := s.accepted + 1 }
  | .fork pid =>
    match s.daemon.pc with
    | .fork fd =>
      if pid = -1 then { s with daemon := d }
      else
        let m : ManagerFds α := { connection := s.accepted, fd := fd, table := s.table }
        { s with daemon := d, managers := s.managers ++ [m] }
    | _ => { s with daemon := d }
  | .close fd => { s with daemon := d, table := s.table.close fd }
  | _ => { s with daemon := d }

/-- One step. -/
def step (base : FdTable α) (s : Family α) : FamilyEvent → Option (Family α)
  | .daemon l => if s.admits l then (s.daemon.step l).map fun d => s.after d l else none
  | .manager i c =>
    s.managers[i]?.bind fun m =>
      (m.step base c).map fun m => { s with managers := s.managers.set i m }
  | .ended i => some { s with managers := s.managers.eraseIdx i }

end Family

/-- The table of the command for `r`, when `m` takes it on: `load` of both streams, the clone,
`dup` of both streams. -/
def commandFds (m : ManagerFds α) (r : Request) : FdTable (OpenFile (SrundFile α)) :=
  let p := Output.loadFds .out (m.outputs .out) r.outmode r.outfile r.backend
    (m.table.map .inherited)
  let q := Output.loadFds .err (m.outputs .err) r.errmode r.errfile r.backend p.2
  q.1.dup .err 2 (p.1.dup .out 1 q.2)

/-- Who has what, when `main` has been started with the table `base`. -/
structure Isolated (keeps : α → Bool) (base : FdTable α) (s : Family α) : Prop where
  /-- Between two connections the daemon is back at where its loop has begun. -/
  rest : s.daemon.pc = .accept ∨ s.daemon.pc = .reap ∨ s.daemon.pc = .stopCheck →
    s.table = listening base
  /-- A manager has its own connection, until the client hangs up. -/
  own : ∀ m ∈ s.managers, ∀ fd n, m.table.file fd = some (.connection n) ↔
    m.connected = true ∧ n = m.connection ∧ fd = m.fd
  /-- No other one has it. -/
  apart : (s.managers.map ManagerFds.connection).Nodup
  listener : ∀ m ∈ s.managers, m.stage ≠ .forked → ∀ fd, m.table.file fd ≠ some .listener
  /-- Before its first command a manager has nothing of a command. -/
  fresh : ∀ m ∈ s.managers, m.fresh = true → m.Unburdened
  /-- Then a command has its outputs, and for the rest what `main` has been started with. -/
  command : ∀ m ∈ s.managers, m.Unburdened → ∀ r : Request, ∀ n,
    ((commandFds m r).keep (OpenFile.survives keeps)).file n =
      if n = 1 then some (Output.target .out r.outmode r.backend)
      else if n = 2 then some (Output.target .err r.errmode r.backend)
      else ((base.file n).filter keeps).map fun a => .inherited (.started a)
  /-- A later one may have what has been opened for the earlier ones of its connection. -/
  later : ∀ m ∈ s.managers, ∀ r : Request, ∀ n, n ≠ 1 → n ≠ 2 → ∀ f,
    ((commandFds m r).keep (OpenFile.survives keeps)).file n = some f →
      (∃ a, base.file n = some a ∧ keeps a = true ∧ f = .inherited (.started a)) ∨
        ∃ e, m.table.file n = some (.capture m.connection e) ∧
          f = .inherited (.capture m.connection e)

/-! ### The table of the daemon -/

section

variable {base : FdTable α} {n fd c : ℕ}

/-- The daemon's table with the connection in hand. It takes the number that is free in each
round of the loop. -/
def inHandFds (base : FdTable α) (n : ℕ) : FdTable (SrundFile α) :=
  ((listening base).openFile (.connection n)).2

theorem listening_file (base : FdTable α) (fd : ℕ) :
    (listening base).file fd =
      if fd = sockfd base then some .listener
      else if fd = (base.map SrundFile.started).free then some .lock
      else (base.file fd).map .started := by
  rw [listening, FdTable.openFile_file]
  refine if_congr Iff.rfl rfl ?_
  rw [locked, FdTable.openFile_file]
  rfl

/-- What `main` has been started with is still there, -/
theorem listening_started {a : α} :
    (listening base).file fd = some (.started a) ↔ base.file fd = some a := by
  rw [listening, FdTable.agreeOff_openFile _ _ _ (fun heq => by cases heq), locked,
    FdTable.agreeOff_openFile _ _ _ (fun heq => by cases heq), FdTable.map_file,
    Option.map_eq_some_iff]
  constructor
  · rintro ⟨b, hb, heq⟩
    cases heq
    exact hb
  · exact fun h => ⟨a, h, rfl⟩

/-- and beside that the lock file and the listening socket. -/
theorem listening_cases {f : SrundFile α} (h : (listening base).file fd = some f) :
    f = .listener ∧ fd = sockfd base ∨ f = .lock ∨ ∃ a, f = .started a := by
  rw [listening_file] at h
  split at h
  · next heq => exact Or.inl ⟨(Option.some.inj h).symm, heq⟩
  · split at h
    · exact Or.inr (Or.inl (Option.some.inj h).symm)
    · obtain ⟨a, -, h⟩ := Option.map_eq_some_iff.mp h
      exact Or.inr (Or.inr ⟨a, h.symm⟩)

theorem inHandFds_connection :
    (inHandFds base n).file fd = some (.connection c) ↔ c = n ∧ fd = (listening base).free := by
  rw [inHandFds, FdTable.openFile_file]
  split
  · next hfd =>
    rw [Option.some_inj, SrundFile.connection.injEq]
    exact ⟨fun h => ⟨h.symm, hfd⟩, fun h => h.1.symm⟩
  · next hfd =>
    -- no connection is in the table of the loop
    refine iff_of_false (fun h => ?_) fun h => hfd h.2
    rcases listening_cases h with ⟨h, -⟩ | h | ⟨a, h⟩ <;> cases h

theorem inHandFds_listener :
    (inHandFds base n).file fd = some .listener ↔ fd = sockfd base := by
  rw [inHandFds, FdTable.agreeOff_openFile _ _ _ (fun heq => by cases heq)]
  constructor
  · intro h
    rcases listening_cases h with ⟨-, h⟩ | h | ⟨a, h⟩
    · exact h
    · cases h
    · cases h
  · rintro rfl
    rw [listening_file, if_pos rfl]

theorem inHandFds_ne_capture {f : OpenFile Empty} :
    (inHandFds base n).file fd ≠ some (.capture c f) := by
  rw [inHandFds, ne_eq, FdTable.agreeOff_openFile _ _ _ (fun heq => by cases heq)]
  intro h
  rcases listening_cases h with ⟨h, -⟩ | h | ⟨a, h⟩ <;> cases h

end

/-! ### The table of a manager -/

section

variable {t t' : FdTable (SrundFile α)} {c : ℕ} {s : CaptureStream} {o : Output}

/-- The stream that something has been opened for. -/
def OpenFile.stream : OpenFile Empty → CaptureStream
  | .readEnd s | .writeEnd s | .devNull s | .redirect s => s

/-- The descriptors of an `Output` object of the manager for the connection `c`. A member that is
not -1 is the object's own, so that closing it takes nothing from anybody else. -/
structure Holds (t : FdTable (SrundFile α)) (c : ℕ) (s : CaptureStream) (o : Output) : Prop where
  read : t.Refers o.pipefd0 (.capture c (.readEnd s))
  write : t.Refers o.pipefd1 (.capture c (.writeEnd s))
  redirect : t.Refers o.redirectFd (.capture c (.redirect s))

theorem Holds.openFile (h : Holds t c s o) (f : SrundFile α) : Holds (t.openFile f).2 c s o :=
  ⟨h.read.openFile f, h.write.openFile f, h.redirect.openFile f⟩

/-- Something else has been opened or closed. -/
theorem Holds.agree (h : Holds t c s o) {f : SrundFile α} (hagree : FdTable.AgreeOff f t t')
    (hf : ∀ e, f = .capture c e → e.stream ≠ s) : Holds t' c s o :=
  ⟨h.read.agree hagree fun heq => hf _ heq.symm rfl,
    h.write.agree hagree fun heq => hf _ heq.symm rfl,
    h.redirect.agree hagree fun heq => hf _ heq.symm rfl⟩

theorem agreeOff_closefd {fd : Int} {f : SrundFile α} (h : t.Refers fd f) :
    FdTable.AgreeOff f t (closefd t fd) := by
  unfold closefd
  rcases h with rfl | ⟨k, rfl, hk⟩
  · rw [if_pos rfl]
    exact fun _ _ _ => Iff.rfl
  · rw [if_neg (by omega)]
    exact FdTable.agreeOff_close hk

/-- The tables differ in what the manager for `c` has opened for commands. This is all that
`load`, `bind` and `receive` do to a table. -/
def Captures (c : ℕ) (t t' : FdTable (SrundFile α)) : Prop :=
  ∀ f, (∀ e, f ≠ .capture c e) → ∀ n, t'.file n = some f ↔ t.file n = some f

theorem Captures.refl (c : ℕ) (t : FdTable (SrundFile α)) : Captures c t t := fun _ _ _ => Iff.rfl

theorem Captures.then {t'' : FdTable (SrundFile α)} {e : OpenFile Empty} (h : Captures c t t')
    (hagree : FdTable.AgreeOff (.capture c e) t' t'') : Captures c t t'' :=
  fun f hf n => (hagree f (hf e) n).trans (h f hf n)

/-- The descriptors of a manager are where they should be. This is the invariant of its calls;
`Isolated` is what follows from it for the manager and its commands. -/
structure Placed (base : FdTable α) (m : ManagerFds α) : Prop where
  connection : ∀ fd n, m.table.file fd = some (.connection n) ↔
    m.connected = true ∧ n = m.connection ∧ fd = m.fd
  listener : ∀ fd, m.table.file fd = some .listener ↔ m.stage = .forked ∧ fd = sockfd base
  started : ∀ fd a, m.table.file fd = some (.started a) ↔ base.file fd = some a
  captured : ∀ fd n f, m.table.file fd = some (.capture n f) →
    n = m.connection ∧ m.fresh = false
  timer : m.table.Refers m.timerfd (.timer m.connection)
  outputs : ∀ s, Holds m.table m.connection s (m.outputs s)

variable {base : FdTable α} {m m' : ManagerFds α}

/-- A manager that has been forked. -/
theorem placed_forked (base : FdTable α) (n : ℕ) :
    Placed base { connection := n, fd := (listening base).free, table := inHandFds base n } where
  connection _ _ := inHandFds_connection.trans (and_iff_right rfl).symm
  listener _ := inHandFds_listener.trans (and_iff_right rfl).symm
  started _ _ :=
    (FdTable.agreeOff_openFile _ _ _ (fun heq => by cases heq) _).trans listening_started
  captured _ _ _ h := absurd h inHandFds_ne_capture
  timer := Or.inl rfl
  outputs _ := ⟨Or.inl rfl, Or.inl rfl, Or.inl rfl⟩

/-- An `Output` object opens and closes what is its own. -/
theorem Placed.used (h : Placed base m) (hcaptures : Captures m.connection m.table t')
    (ho : Holds t' m.connection s o)
    (hother : ∀ s' ≠ s, Holds t' m.connection s' (m.outputs s')) : Placed base (m.used s o t') where
  connection fd n := (hcaptures _ (fun e heq => by cases heq) fd).trans (h.connection fd n)
  listener fd := (hcaptures _ (fun e heq => by cases heq) fd).trans (h.listener fd)
  started fd a := (hcaptures _ (fun e heq => by cases heq) fd).trans (h.started fd a)
  captured fd n f hf := by
    refine ⟨?_, rfl⟩
    by_contra hne
    -- what another manager has opened would have been there before
    have hbefore := (hcaptures _ (fun e heq => hne (by cases heq; rfl)) fd).mp hf
    exact hne (h.captured fd n f hbefore).1
  timer := h.timer.congr fun n => (hcaptures _ (fun e heq => by cases heq) n).mpr
  outputs s' := by
    show Holds t' m.connection s' (Function.update m.outputs s o s')
    by_cases hs : s' = s
    · subst hs
      rw [Function.update_self]
      exact ho
    · rw [Function.update_of_ne hs]
      exact hother s' hs

theorem map_own (c : ℕ) (t : FdTable (SrundFile α)) :
    (t.map OpenFile.inherited).map (OpenFile.own c) = t := by
  refine FdTable.ext_file fun n => ?_
  rw [FdTable.map_file, FdTable.map_file, Option.map_map]
  exact Option.map_id_apply

theorem closefd_map {β γ : Type} (g : β → γ) (t : FdTable β) (fd : Int) :
    (closefd t fd).map g = closefd (t.map g) fd := by
  unfold closefd
  split
  · rfl
  · exact FdTable.close_map g t _

/-- `load` of a stream without a pipe. -/
theorem load_of_not_loadsPipe (m : ManagerFds α) {r : Request}
    (h : Output.loadsPipe (s.mode r) r.backend = false) :
    m.load s r =
      m.used s { m.outputs s with mode := s.mode r, redirectTo := s.path r } m.table := by
  simp only [ManagerFds.load]
  rw [loadFds_of_not_loadsPipe _ _ _ _ h, map_own]

/-- `load` of a stream with a pipe: its ends are opened one after the other. -/
theorem load_of_loadsPipe (m : ManagerFds α) {r : Request}
    (h : Output.loadsPipe (s.mode r) r.backend = true) {p q : ℕ × FdTable (SrundFile α)}
    (hp : m.table.openFile (.capture m.connection (.readEnd s)) = p)
    (hq : p.2.openFile (.capture m.connection (.writeEnd s)) = q) :
    m.load s r = m.used s { m.outputs s with
      mode := s.mode r
      redirectTo := s.path r
      pipefd0 := p.1
      pipefd1 := q.1 } q.2 := by
  -- the table of the manager before and after the read end, without the names of the command
  have hfirst : ((m.table.map OpenFile.inherited).openFile (.readEnd s)).2.map
      (OpenFile.own m.connection) = p.2 := by
    rw [FdTable.openFile_map, map_own, ← hp]
    rfl
  have hp1 : ((m.table.map OpenFile.inherited).openFile (.readEnd s)).1 = p.1 := by
    rw [← hp]
    exact FdTable.free_map _ _
  have hq1 : (((m.table.map OpenFile.inherited).openFile (.readEnd s)).2.openFile
      (.writeEnd s)).1 = q.1 := by
    rw [← hq, ← hfirst]
    exact (FdTable.free_map _ _).symm
  simp only [ManagerFds.load]
  rw [loadFds_of_loadsPipe _ _ _ _ h, FdTable.pipe_eq]
  simp only
  rw [FdTable.openFile_map, hfirst, hp1, hq1, ← hq]
  rfl

theorem Placed.load (h : Placed base m) (s : CaptureStream) (r : Request) :
    Placed base (m.load s r) := by
  obtain ⟨hread, hwrite, hredirect⟩ := h.outputs s
  cases hpipe : Output.loadsPipe (s.mode r) r.backend with
  | false =>
    rw [load_of_not_loadsPipe m hpipe]
    exact h.used (.refl _ _) ⟨hread, hwrite, hredirect⟩ fun s' _ => h.outputs s'
  | true =>
    rw [load_of_loadsPipe m hpipe rfl rfl]
    refine h.used (((Captures.refl _ _).then (FdTable.agreeOff_openFile _ _)).then
      (FdTable.agreeOff_openFile _ _)) ⟨?_, ?_, ?_⟩
      fun s' _ => ((h.outputs s').openFile _).openFile _
    · exact (FdTable.refers_openFile _ _).openFile _
    · exact FdTable.refers_openFile _ _
    · exact (hredirect.openFile _).openFile _

/-- `bind` of a stream without a pipe. -/
theorem bind_of_no_pipe (m : ManagerFds α) (h : (m.outputs s).pipefd0 = -1) :
    m.bind s = m.used s { m.outputs s with «over» := true } m.table := by
  simp only [ManagerFds.bind, Output.bindFds, Output.bind, h, ne_eq, not_true_eq_false, if_false,
    map_own]

/-- `bind` of a stream with a pipe closes the write end. -/
theorem bind_of_pipe (m : ManagerFds α) (h : (m.outputs s).pipefd0 ≠ -1)
    (hmode : (m.outputs s).mode ≠ .file) :
    m.bind s = m.used s { m.outputs s with pipefd1 := -1 }
      (closefd m.table (m.outputs s).pipefd1) := by
  simp only [ManagerFds.bind, Output.bindFds, Output.bind, h, hmode, ne_eq, not_false_eq_true,
    if_true, if_false, false_and, closefd_map, map_own]

/-- In FILE mode the redirect file has been opened before. -/
theorem bind_of_file (m : ManagerFds α) (h : (m.outputs s).pipefd0 ≠ -1)
    (hmode : (m.outputs s).mode = .file) {p : ℕ × FdTable (SrundFile α)}
    (hp : m.table.openFile (.capture m.connection (.redirect s)) = p) :
    m.bind s = m.used s { m.outputs s with redirectFd := p.1, pipefd1 := -1 }
      (closefd p.2 (m.outputs s).pipefd1) := by
  have hfree : ((m.table.map OpenFile.inherited).openFile (.redirect s)).1 = p.1 := by
    rw [← hp]
    exact FdTable.free_map _ _
  have hfd : ¬ ((p.1 : ℕ) : Int) = -1 := by omega
  simp only [ManagerFds.bind, Output.bindFds, Output.bind, h, hmode, hfree, hfd, ne_eq,
    not_false_eq_true, if_true, if_false, and_false, closefd_map, FdTable.openFile_map, map_own]
  rw [← hp]
  rfl

theorem Placed.bind (h : Placed base m) (s : CaptureStream) : Placed base (m.bind s) := by
  by_cases hpipe : (m.outputs s).pipefd0 = -1
  · rw [bind_of_no_pipe m hpipe]
    obtain ⟨hread, hwrite, hredirect⟩ := h.outputs s
    exact h.used (.refl _ _) ⟨hread, hwrite, hredirect⟩ fun s' _ => h.outputs s'
  by_cases hmode : (m.outputs s).mode = .file
  · rw [bind_of_file m hpipe hmode rfl]
    have hhold := fun s' => (h.outputs s').openFile (.capture m.connection (.redirect s))
    have hclose := agreeOff_closefd (hhold s).write
    refine h.used (((Captures.refl _ _).then (FdTable.agreeOff_openFile _ _)).then hclose)
      ⟨?_, Or.inl rfl, ?_⟩ fun s' hs' => (hhold s').agree hclose ?_
    · exact (hhold s).read.agree hclose fun heq => by cases heq
    · exact (FdTable.refers_openFile _ _).agree hclose fun heq => by cases heq
    · exact fun e heq => by cases heq; exact hs'.symm
  · rw [bind_of_pipe m hpipe hmode]
    have hclose := agreeOff_closefd (h.outputs s).write
    refine h.used ((Captures.refl _ _).then hclose) ⟨?_, Or.inl rfl, ?_⟩ fun s' hs' =>
      (h.outputs s').agree hclose ?_
    · exact (h.outputs s).read.agree hclose fun heq => by cases heq
    · exact (h.outputs s).redirect.agree hclose fun heq => by cases heq
    · exact fun e heq => by cases heq; exact hs'.symm

theorem Placed.receiveEnd (h : Placed base m) (s : CaptureStream) :
    Placed base (m.receiveEnd s) := by
  obtain ⟨hread, hwrite, hredirect⟩ := h.outputs s
  have hfirst := agreeOff_closefd hread
  have hsecond := agreeOff_closefd (hredirect.agree hfirst fun heq => by cases heq)
  refine h.used (((Captures.refl _ _).then hfirst).then hsecond) ⟨Or.inl rfl, ?_, Or.inl rfl⟩
    fun s' hs' => ?_
  · exact (hwrite.agree hfirst fun heq => by cases heq).agree hsecond fun heq => by cases heq
  · refine ((h.outputs s').agree hfirst ?_).agree hsecond ?_
    · exact fun e heq => by cases heq; exact hs'.symm
    · exact fun e heq => by cases heq; exact hs'.symm

/-- A file that srund has opened for itself. -/
def SrundFile.internal : SrundFile α → Bool
  | .started _ | .capture _ _ => false
  | _ => true

/-- The manager opens or closes such a file. What it has been started with and what the `Output`
objects hold is not touched. -/
theorem Placed.change (h : Placed base m) {f : SrundFile α}
    (hagree : FdTable.AgreeOff f m.table m'.table)
    (hsame : m'.connection = m.connection ∧ m'.outputs = m.outputs ∧ m'.fresh = m.fresh)
    (hf : f.internal = true)
    (hconnection : ∀ fd n, m'.table.file fd = some (.connection n) ↔
      m'.connected = true ∧ n = m'.connection ∧ fd = m'.fd)
    (hlistener : ∀ fd, m'.table.file fd = some .listener ↔ m'.stage = .forked ∧ fd = sockfd base)
    (htimer : m'.table.Refers m'.timerfd (.timer m'.connection)) : Placed base m' where
  connection := hconnection
  listener := hlistener
  started fd a := (hagree _ (fun heq => by subst heq; cases hf) fd).trans (h.started fd a)
  captured fd n e he := by
    rw [hsame.1, hsame.2.2]
    exact h.captured fd n e ((hagree _ (fun heq => by subst heq; cases hf) fd).mp he)
  timer := htimer
  outputs s := by
    rw [hsame.1, hsame.2.1]
    exact (h.outputs s).agree hagree fun e heq => by subst heq; cases hf

/-- **One call of a manager.** It does not take a step back, and stays with its connection. -/
theorem Placed.step {call : ManagerCall} (h : Placed base m)
    (hstep : m.step base call = some m') : Placed base m' ∧ m'.connection = m.connection := by
  unfold ManagerFds.step at hstep
  split at hstep
  · next hstage =>
    -- `close(sockfd)`
    cases hstep
    have hclose := FdTable.agreeOff_close ((h.listener _).mpr ⟨hstage, rfl⟩)
    have htimer := h.timer.agree hclose fun heq => by cases heq
    refine ⟨h.change hclose ⟨rfl, rfl, rfl⟩ rfl ?_ ?_ htimer, rfl⟩
    · exact fun fd n => (hclose _ (fun heq => by cases heq) fd).trans (h.connection fd n)
    · refine fun fd => iff_of_false (fun hfd => ?_) fun hno => by cases hno.1
      rw [FdTable.close_file] at hfd
      split at hfd
      · cases hfd
      · next hne => exact hne ((h.listener fd).mp hfd).2
  · next hstage =>
    -- `epoll_create1`
    cases hstep
    have hopen := FdTable.agreeOff_openFile m.table (.epoll m.connection)
    refine ⟨h.change hopen ⟨rfl, rfl, rfl⟩ rfl ?_ ?_ (h.timer.openFile _), rfl⟩
    · exact fun fd n => (hopen _ (fun heq => by cases heq) fd).trans (h.connection fd n)
    · refine fun fd => iff_of_false (fun hfd => ?_) fun hno => by cases hno.1
      have hforked := ((h.listener fd).mp ((hopen _ (fun heq => by cases heq) fd).mp hfd)).1
      rw [hstage] at hforked
      cases hforked
  · cases hstep
    exact ⟨h.load _ _, rfl⟩
  · cases hstep
    exact ⟨h.bind _, rfl⟩
  · cases hstep
    exact ⟨h.receiveEnd _, rfl⟩
  · -- `timerfd_create`
    cases hstep
    have hopen := FdTable.agreeOff_openFile m.table (.timer m.connection)
    refine ⟨h.change hopen ⟨rfl, rfl, rfl⟩ rfl ?_ ?_ (FdTable.refers_openFile _ _), rfl⟩
    · exact fun fd n => (hopen _ (fun heq => by cases heq) fd).trans (h.connection fd n)
    · exact fun fd => (hopen _ (fun heq => by cases heq) fd).trans (h.listener fd)
  · -- the timer has expired
    cases hstep
    have hclose := agreeOff_closefd h.timer
    refine ⟨h.change hclose ⟨rfl, rfl, rfl⟩ rfl ?_ ?_ (Or.inl rfl), rfl⟩
    · exact fun fd n => (hclose _ (fun heq => by cases heq) fd).trans (h.connection fd n)
    · exact fun fd => (hclose _ (fun heq => by cases heq) fd).trans (h.listener fd)
  · -- the client has hung up
    obtain ⟨hconnected, heq⟩ := Option.ite_none_right_eq_some.mp hstep
    cases heq
    have hclose := FdTable.agreeOff_close ((h.connection _ _).mpr ⟨hconnected, rfl, rfl⟩)
    have htimer := h.timer.agree hclose fun heq => by cases heq
    refine ⟨h.change hclose ⟨rfl, rfl, rfl⟩ rfl ?_ ?_ htimer, rfl⟩
    · refine fun fd n => iff_of_false (fun hfd => ?_) fun hno => by cases hno.1
      rw [FdTable.close_file] at hfd
      split at hfd
      · cases hfd
      · next hne => exact hne ((h.connection fd n).mp hfd).2.2
    · exact fun fd => (hclose _ (fun heq => by cases heq) fd).trans (h.listener fd)
  · cases hstep

end

/-! ### The table of a command -/

section

variable {base : FdTable α} {keeps : α → Bool} {m : ManagerFds α}

/-- What `main` has been started with is there in a manager. -/
theorem Placed.isSome (h : Placed base m) {fd : ℕ} (hfd : (base.file fd).isSome = true) :
    (m.table.file fd).isSome = true := by
  obtain ⟨a, ha⟩ := Option.isSome_iff_exists.mp hfd
  rw [(h.started fd a).mpr ha]
  rfl

/-- Objects that hold nothing of a command have no pipe. -/
theorem Placed.no_pipe (h : Placed base m) (hclear : m.Unburdened) (s : CaptureStream) :
    (m.outputs s).pipefd0 = -1 ∧ (m.outputs s).pipefd1 = -1 := by
  constructor
  · exact (h.outputs s).read.resolve_right fun ⟨k, _, hfile⟩ => hclear _ _ _ hfile
  · exact (h.outputs s).write.resolve_right fun ⟨k, _, hfile⟩ => hclear _ _ _ hfile

/-- After `dup` of both streams: the two targets, and for the rest the table of the manager. -/
theorem Placed.commandFds_file (h : Placed base m)
    (hopen : ∀ fd < 3, (base.file fd).isSome = true) (hclear : m.Unburdened) (r : Request) (n : ℕ) :
    (commandFds m r).file n =
      if n = 1 then some (Output.target .out r.outmode r.backend)
      else if n = 2 then some (Output.target .err r.errmode r.backend)
      else (m.table.file n).map .inherited :=
  BothLoaded.child_file ⟨fun fd hfd => h.isSome (hopen fd hfd),
    loaded_loadFds .out (h.no_pipe hclear .out) r.outmode r.outfile r.backend _,
    loaded_loadFds .err (h.no_pipe hclear .err) r.errmode r.errfile r.backend _⟩ n

/-- The outputs are not closed by `execv`. -/
theorem survives_target (s : CaptureStream) (mode : OutMode) (backend : Bool) :
    OpenFile.survives keeps (Output.target s mode backend) = true := by
  unfold Output.target
  split <;> rfl

/-- Of the files of a manager `execv` leaves what `main` has been started with open, and what
has been opened for a command. -/
theorem Placed.survivors (h : Placed base m) {n : ℕ} {f : OpenFile (SrundFile α)}
    {g : SrundFile α} (hfile : m.table.file n = some g) (hf : f = .inherited g)
    (hsurvives : OpenFile.survives keeps f = true) :
    (∃ a, base.file n = some a ∧ keeps a = true ∧ f = .inherited (.started a)) ∨
      ∃ e, m.table.file n = some (.capture m.connection e) ∧
        f = .inherited (.capture m.connection e) := by
  subst hf
  cases g with
  | started a => exact Or.inl ⟨a, (h.started n a).mp hfile, hsurvives, rfl⟩
  | capture c e =>
    obtain rfl := (h.captured n c e hfile).1
    exact Or.inr ⟨e, hfile, rfl⟩
  | _ => cases hsurvives

theorem Placed.commandFds_keep (h : Placed base m)
    (hopen : ∀ fd < 3, (base.file fd).isSome = true) (hclear : m.Unburdened) (r : Request) (n : ℕ) :
    ((commandFds m r).keep (OpenFile.survives keeps)).file n =
      if n = 1 then some (Output.target .out r.outmode r.backend)
      else if n = 2 then some (Output.target .err r.errmode r.backend)
      else ((base.file n).filter keeps).map fun a => .inherited (.started a) := by
  rw [FdTable.keep_file, h.commandFds_file hopen hclear]
  split
  · exact Option.filter_some_pos (survives_target _ _ _)
  · split
    · exact Option.filter_some_pos (survives_target _ _ _)
    -- of the other numbers `execv` leaves what has been there at the start
    · ext f
      simp only [Option.filter_eq_some_iff, Option.map_eq_some_iff]
      constructor
      · rintro ⟨⟨g, hfile, hf⟩, hsurvives⟩
        rcases h.survivors hfile hf.symm hsurvives with ⟨a, ha, hkeeps, rfl⟩ | ⟨e, he, -⟩
        · exact ⟨a, ⟨ha, hkeeps⟩, rfl⟩
        · exact absurd he (hclear _ _ _)
      · rintro ⟨a, ⟨ha, hkeeps⟩, rfl⟩
        exact ⟨⟨_, (h.started n a).mpr ha, rfl⟩, hkeeps⟩

/-- A later command: at every other number it has what `main` has been started with, or what has
been opened for an earlier one. -/
theorem Placed.later (h : Placed base m) (r : Request) {n : ℕ} (h1 : n ≠ 1) (h2 : n ≠ 2)
    {f : OpenFile (SrundFile α)}
    (hf : ((commandFds m r).keep (OpenFile.survives keeps)).file n = some f) :
    (∃ a, base.file n = some a ∧ keeps a = true ∧ f = .inherited (.started a)) ∨
      ∃ e, m.table.file n = some (.capture m.connection e) ∧
        f = .inherited (.capture m.connection e) := by
  obtain ⟨hf, hsurvives⟩ := Option.filter_eq_some_iff.mp hf
  obtain ⟨g, hfile, heq⟩ := Option.map_eq_some_iff.mp (inherited_of_child h1 h2 hf)
  exact h.survivors hfile heq.symm hsurvives

end

/-! ### Runs -/

/-- The invariant of the system. The table of the daemon is one of two, by where the daemon is,
and a manager that it forks gets the second one. -/
structure Kept (base : FdTable α) (s : Family α) : Prop where
  table : match s.daemon.pc with
    | .accept | .reap | .stopCheck => s.table = listening base
    | .fork fd | .close fd => fd = (listening base).free ∧ s.table = inHandFds base s.accepted
    | _ => True
  placed : ∀ m ∈ s.managers, Placed base m
  /-- The connection in hand has no manager yet. -/
  fresh : ∀ m ∈ s.managers, m.connection ≤ s.accepted ∧
    ∀ fd, s.daemon.pc = .fork fd → m.connection < s.accepted
  apart : (s.managers.map ManagerFds.connection).Nodup

section

variable {base : FdTable α} {keeps : α → Bool} {s s' : Family α}

theorem Kept.start (base : FdTable α) : Kept base (Family.start base) where
  table := rfl
  placed := fun _ h => (by cases h)
  fresh := fun _ h => (by cases h)
  apart := List.nodup_nil

/-- A manager goes on. The daemon and the other managers do not see it. -/
theorem Kept.manager (h : Kept base s) {i : ℕ} {m m' : ManagerFds α} {c : ManagerCall}
    (hm : s.managers[i]? = some m) (hstep : m.step base c = some m') :
    Kept base { s with managers := s.managers.set i m' } := by
  obtain ⟨hi, rfl⟩ := List.getElem?_eq_some_iff.mp hm
  obtain ⟨hplaced, hconnection⟩ := (h.placed _ (List.getElem_mem hi)).step hstep
  have hmem : ∀ m'' ∈ s.managers.set i m', m'' ∈ s.managers ∨ m'' = m' := fun m'' h'' =>
    List.mem_or_eq_of_mem_set h''
  refine ⟨h.table, fun m'' h'' => ?_, fun m'' h'' => ?_, ?_⟩
  · rcases hmem m'' h'' with h'' | rfl
    · exact h.placed m'' h''
    · exact hplaced
  · rcases hmem m'' h'' with h'' | rfl
    · exact h.fresh m'' h''
    · rw [hconnection]
      exact h.fresh _ (List.getElem_mem hi)
  · -- each position keeps its connection
    have hsame : (s.managers.set i m').map ManagerFds.connection =
        s.managers.map ManagerFds.connection := by
      rw [List.map_set, hconnection]
      refine List.ext_getElem (by simp) fun j hj hj' => ?_
      rw [List.getElem_set]
      split
      · next heq =>
        subst heq
        exact (List.getElem_map _).symm
      · rfl
    show ((s.managers.set i m').map ManagerFds.connection).Nodup
    rw [hsame]
    exact h.apart

/-- The daemon takes a step. -/
theorem Kept.daemon (h : Kept base s) {l : DaemonLabel} {d : Daemon} (hadm : s.admits l)
    (hstep : s.daemon.step l = some d) : Kept base (s.after d l) := by
  have htable := h.table
  -- a step that leaves the descriptors alone
  have hquiet : (match d.pc with
      | .accept | .reap | .stopCheck => s.table = listening base
      | .fork fd | .close fd => fd = (listening base).free ∧ s.table = inHandFds base s.accepted
      | _ => True) → (∀ fd, d.pc = .fork fd → s.daemon.pc = .fork fd) →
      Kept base { s with daemon := d } := fun ht hfork =>
    ⟨ht, h.placed, fun m hm => ⟨(h.fresh m hm).1, fun fd hpc => (h.fresh m hm).2 fd (hfork fd hpc)⟩,
      h.apart⟩
  cases Daemon.step_cases hstep with
  | sigterm pid => exact hquiet htable fun fd hpc => hpc
  | sigchld => exact hquiet htable fun fd hpc => hpc
  -- `accept4` takes the number that the last round has given back
  | connection fd hpc =>
    rw [hpc] at htable
    refine ⟨⟨?_, ?_⟩, h.placed, fun m hm => ?_, h.apart⟩
    · rw [show fd = s.table.free from hadm, htable]
    · show (s.table.openFile (.connection (s.accepted + 1))).2 = _
      rw [htable]
      rfl
    · have hle := (h.fresh m hm).1
      exact ⟨Nat.le_succ_of_le hle, fun _ _ => Nat.lt_succ_of_le hle⟩
  | aborted hpc | eintr hpc | reaped r hpc | allReaped hpc | resume hpc =>
    rw [hpc] at htable
    exact hquiet htable fun fd hd => (by cases hd)
  | failed hpc | stop hpc | cleared hpc => exact hquiet trivial fun fd hd => (by cases hd)
  | forkFailed hpc =>
    have hafter : s.after (s.daemon.goto (.clear (-1))) (.fork (-1)) =
        { s with daemon := s.daemon.goto (.clear (-1)) } := by
      simp only [Family.after, hpc, if_true]
    rw [hafter]
    exact hquiet trivial fun fd hd => (by cases hd)
  | @forked fd pid hpc =>
    rw [hpc] at htable
    obtain ⟨hfd, htable⟩ := htable
    simp only [Family.after, hpc]
    split
    · exact hquiet ⟨hfd, htable⟩ fun fd' hd => (by cases hd)
    · refine ⟨⟨hfd, htable⟩, fun m hm => ?_, fun m hm => ?_, ?_⟩
      · rcases List.mem_append.mp hm with hm | hm
        · exact h.placed m hm
        · obtain rfl := List.mem_singleton.mp hm
          rw [hfd, htable]
          exact placed_forked base s.accepted
      · refine ⟨?_, fun fd' hd => (by cases hd)⟩
        rcases List.mem_append.mp hm with hm | hm
        · exact (h.fresh m hm).1
        · obtain rfl := List.mem_singleton.mp hm
          exact le_refl _
      · -- the connection in hand is a new one
        rw [List.map_append, List.nodup_append]
        refine ⟨h.apart, List.nodup_singleton _, fun c hc c' hc' heq => ?_⟩
        obtain ⟨m, hm, rfl⟩ := List.mem_map.mp hc
        have hlt := (h.fresh m hm).2 fd hpc
        rw [heq, List.mem_singleton.mp hc'] at hlt
        exact lt_irrefl _ hlt
  -- the connection is closed, and the table is that of the loop again
  | @closed fd hpc =>
    rw [hpc] at htable
    obtain ⟨rfl, htable⟩ := htable
    refine ⟨?_, h.placed, fun m hm => ⟨(h.fresh m hm).1, fun fd hd => (by cases hd)⟩, h.apart⟩
    show s.table.close (listening base).free = listening base
    rw [htable]
    exact FdTable.close_openFile _ _

theorem Kept.step {ev : FamilyEvent} (h : Kept base s) (hstep : s.step base ev = some s') :
    Kept base s' := by
  cases ev with
  | daemon l =>
    obtain ⟨hadm, hstep⟩ := Option.ite_none_right_eq_some.mp hstep
    obtain ⟨d, hd, rfl⟩ := Option.map_eq_some_iff.mp hstep
    exact h.daemon hadm hd
  | manager i c =>
    obtain ⟨m, hm, hstep⟩ := Option.bind_eq_some_iff.mp hstep
    obtain ⟨m', hm', rfl⟩ := Option.map_eq_some_iff.mp hstep
    exact h.manager hm hm'
  | ended i =>
    cases hstep
    have hsub : (s.managers.eraseIdx i).Sublist s.managers := List.eraseIdx_sublist _ _
    exact ⟨h.table, fun m hm => h.placed m (hsub.subset hm), fun m hm => h.fresh m (hsub.subset hm),
      h.apart.sublist (hsub.map _)⟩

/-- What the invariant says about who has what. For the outputs of a command the standard
descriptors must be open, since `pipe` would take their numbers otherwise. -/
theorem Kept.separate (h : Kept base s) (hopen : ∀ fd < 3, (base.file fd).isSome = true) :
    Isolated keeps base s where
  rest hpc := by
    have htable := h.table
    rcases hpc with hpc | hpc | hpc
    all_goals
      rw [hpc] at htable
      exact htable
  own m hm := (h.placed m hm).connection
  apart := h.apart
  listener m hm hstage fd hfd := hstage (((h.placed m hm).listener fd).mp hfd).1
  fresh m hm hfresh fd n f hf := by
    rw [((h.placed m hm).captured fd n f hf).2] at hfresh
    cases hfresh
  command m hm hclear r n := (h.placed m hm).commandFds_keep hopen hclear r n
  later m hm r n h1 h2 f hf := (h.placed m hm).later r h1 h2 hf

/-- **Isolation.** In every run of the daemon and its managers, when `main` has been started with
the standard descriptors open. -/
theorem Family.isolated {evs : List FamilyEvent} (keeps : α → Bool)
    (hopen : ∀ fd < 3, (base.file fd).isSome = true)
    (hrun : Machine.exec (Family.step base) (Family.start base) evs = some s) :
    Isolated keeps base s :=
  (Machine.exec_invariant (fun _ _ _ h hs => Kept.step h hs) (Kept.start base) hrun).separate hopen

/-- `main` has been started with the standard descriptors alone. -/
def stdTable : FdTable ℕ where
  file n := if n < 3 then some n else none
  finite := ⟨3, fun m hm => if_neg (by omega)⟩

/-- A client connects, and its manager gets to its epoll instance. -/
def oneEvents (fd : ℕ) : List FamilyEvent :=
  [.daemon (.accept4 (.connection fd)), .daemon (.fork 100), .daemon (.close fd),
    .manager 0 .closeListener, .manager 0 .epollCreate]

theorem Family.step_daemon {l : DaemonLabel} {d : Daemon} (hadm : s.admits l)
    (hstep : s.daemon.step l = some d) : s.step base (.daemon l) = some (s.after d l) := by
  rw [Family.step, if_pos hadm, hstep]
  rfl

theorem exec_oneEvents (base : FdTable α) : ∃ s m,
    Machine.exec (Family.step base) (Family.start base) (oneEvents (listening base).free) =
      some s ∧ s.managers = [m] ∧ m.fresh = true ∧ s.daemon.pc = .accept := by
  let fd := (listening base).free
  let s₁ : Family α := { daemon := { pc := .fork fd }, table := inHandFds base 1, accepted := 1 }
  let m : ManagerFds α := { connection := 1, fd := fd, table := inHandFds base 1 }
  let s₂ : Family α := { s₁ with daemon := { pc := .close fd }, managers := [m] }
  let s₃ : Family α := { s₂ with daemon := {}, table := (inHandFds base 1).close fd }
  have h₁ : (Family.start base).step base (.daemon (.accept4 (.connection fd))) = some s₁ :=
    Family.step_daemon rfl rfl
  have h₂ : s₁.step base (.daemon (.fork 100)) = some s₂ := Family.step_daemon trivial rfl
  have h₃ : s₂.step base (.daemon (.close fd)) = some s₃ :=
    Family.step_daemon (d := {}) trivial (if_pos rfl)
  obtain ⟨s, hs, m', hm', hfresh, hpc⟩ : ∃ s, Machine.exec (Family.step base) s₃
      [.manager 0 .closeListener, .manager 0 .epollCreate] = some s ∧
        ∃ m, s.managers = [m] ∧ m.fresh = true ∧ s.daemon.pc = .accept := ⟨_, rfl, _, rfl, rfl, rfl⟩
  refine ⟨s, m', ?_, hm', hfresh, hpc⟩
  exact Machine.exec_cons_eq_some.mpr ⟨s₁, h₁, Machine.exec_cons_eq_some.mpr
    ⟨s₂, h₂, Machine.exec_cons_eq_some.mpr ⟨s₃, h₃, hs⟩⟩⟩

/-- Its first command has no descriptor above 2. -/
theorem Family.isolated_one : ∃ s : Family ℕ, ∃ m,
    Machine.exec (Family.step stdTable) (Family.start stdTable)
        (oneEvents (listening stdTable).free) = some s ∧
      s.managers = [m] ∧ s.table = listening stdTable ∧
      ∀ r : Request, ∀ n, 2 < n →
        ((commandFds m r).keep (OpenFile.survives fun _ => true)).file n = none := by
  obtain ⟨s, m, hrun, hm, hfresh, hpc⟩ := exec_oneEvents stdTable
  have hopen : ∀ fd < 3, (stdTable.file fd).isSome = true := by decide
  have hisolated := Family.isolated (fun _ => true) hopen hrun
  have hmem : m ∈ s.managers := hm ▸ List.mem_singleton_self m
  refine ⟨s, m, hrun, hm, hisolated.rest (Or.inl hpc), fun r n hn => ?_⟩
  rw [hisolated.command m hmem (hisolated.fresh m hmem hfresh) r n, if_neg (by omega),
    if_neg (by omega), show stdTable.file n = none from if_neg (by omega)]
  rfl

end

end Srun
