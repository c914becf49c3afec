import Srun.Framework.Flock
import Srun.Output
import Srun.Request

/-!
# State of a manager process

A manager serves one connection. Its state is the set of file-scope variables of
`manager.cpp` and `process_stop`, with a program point in place of the call stack:
`Pc` names the point at which the process stands, and the locals that are still
needed there are its arguments. Functions that are called from several places
carry what happens on their return (`WaitRet`, `StopRet`, `SendRet`).

Descriptors and pids are `Int`, with `-1` as the source uses it. Registry files
`tmpfs/<pid>` and cgroup leaves are named by the pid.
-/

namespace Srun

/-- `enum ProcessStatus`. -/
inductive ProcessStatus
  | noProc
  | procRunning
  | procExit
  deriving DecidableEq

/-- A wait status: `WIFEXITED`, `WIFSIGNALED`, or neither. -/
inductive WaitStatus
  | exited (code : UInt8)
  | signaled (sig : UInt8)
  | other
  deriving DecidableEq

/-- How the process came to its end. -/
inductive Exit
  /-- `exit(0)` in the main loop. -/
  | exit0
  /-- An exception, caught in the daemon's `main`, which then returns -1. -/
  | uncaught
  /-- Death by SIGPIPE in a write to the connection. -/
  | sigpipe
  /-- Death in reading `request.args(0)` of a request without arguments. -/
  | outOfRange
  deriving DecidableEq

/-- The callers of `wait_child`. -/
inductive WaitRet
  | loop
  | destroy (how : Exit)
  deriving DecidableEq

/-- The callers of `stop_child`; `evs` are the events of the batch still to be
dispatched. -/
inductive StopRet
  | loop
  | closed (evs : List Int)
  | timer (evs : List Int)
  deriving DecidableEq

/-- The callers of `send_message`. -/
inductive SendRet
  /-- The result of the command, from the main loop. -/
  | result
  /-- A heartbeat, from the main loop. -/
  | heartbeat
  /-- `recv_message`: the answer to SYN, LIST or STOP. -/
  | reply (evs : List Int)
  /-- `handle_request`: bad arguments. -/
  | badArgs (evs : List Int)
  /-- `handle_request`: a backend command has been started. -/
  | started (evs : List Int)
  deriving DecidableEq

/-- Program points of `clear_clonepid`. -/
inductive ClearPoint
  | lock
  | unlink
  | unlock
  | rmdir
  deriving DecidableEq

/-- Program points of `handle_request` and of `set_timeout`, which it calls. -/
inductive HandlePoint
  | entry
  | find
  | loadOut
  | loadErr
  | clone
  | leaf
  | memlimit
  | memswExists
  | memswlimit
  | procs
  | notify
  | lock
  | create
  | write
  | unlock
  /-- The unlock in the `catch` branch, which throws again. -/
  | unlockThrow
  | bindOut
  | bindErr
  | timer
  | settime
  | timerAdd
  | reply
  deriving DecidableEq

/-- Program points of the LIST branch of `recv_message`. -/
inductive ListPoint
  | lock
  | next
  | read (pid : Int)
  | unlock
  | unlockThrow
  deriving DecidableEq

/-- Program points of the STOP branch of `recv_message`. -/
inductive StopPoint
  | next
  | lock
  | check
  | kill
  | unlock
  | unlockThrow
  deriving DecidableEq

/-- Program points of `manager_destroy`. -/
inductive DestroyPoint
  | entry
  | kill
  | sleep
  | close
  deriving DecidableEq

/-- The point at which a manager stands. -/
inductive Pc
  /-- `manager_start` before the loop. -/
  | epollCreate
  | epollAdd
  /-- The head of the loop of `wait_child`. -/
  | waitChild (k : WaitRet)
  /-- `wait_child` reads `request.args(0)`, which does not exist. -/
  | argsRead (k : WaitRet)
  | clear (pt : ClearPoint) (pid : Int) (k : WaitRet)
  /-- The main loop after `wait_child`: client disconnect and command exit. -/
  | loopCheck
  /-- `if (process_stop) stop_child();` -/
  | stopCheck
  | stopChild (k : StopRet)
  | epollWait
  | dispatch (evs : List Int)
  /-- `out.receive(epollfd)`, or `err.receive(epollfd)` when `isErr`. -/
  | receive (isErr : Bool) (evs : List Int)
  /-- The timer branch after `stop_child`. -/
  | timerEvent (evs : List Int)
  /-- The read loop of `recv_message`, with the data read so far. -/
  | recv (data : Bytes) (evs : List Int)
  /-- `recv_message` with nothing read. -/
  | disconnect (evs : List Int)
  | handle (pt : HandlePoint) (data : Bytes) (evs : List Int)
  | list (pt : ListPoint) (acc : List Runproc) (evs : List Int)
  | stop (pt : StopPoint) (procs : List Runproc) (evs : List Int)
  | send (m : Message) (k : SendRet)
  | destroy (pt : DestroyPoint) (how : Exit)
  /-- Inside a `loadRequest` that does not return: its loop over the environment keys has
  added so many values to the request. -/
  | spinning (added : ℕ)
  | gone (how : Exit)
  deriving DecidableEq

/-- Where `wait_child` returns to. -/
def WaitRet.pc : WaitRet → Pc
  | .loop => .loopCheck
  | .destroy how => .destroy .close how

/-- Where `stop_child` returns to. -/
def StopRet.pc : StopRet → Pc
  | .loop => .epollWait
  | .closed evs => .dispatch evs
  | .timer evs => .timerEvent evs

/-- Where `send_message` returns to. -/
def SendRet.pc : SendRet → Pc
  | .result => .stopCheck
  | .heartbeat => .dispatch []
  | .reply evs | .badArgs evs | .started evs => .dispatch evs

/-- The variables of a manager process. -/
structure Manager where
  connection : Int := -1
  clonepid : Int := 0
  epollfd : Int := -1
  timerfd : Int := -1
  out : Output := {}
  err : Output := {}
  synTimeout : Int := 1000
  isSyn : Bool := false
  resultSendback : Bool := false
  childStatus : ProcessStatus := .noProc
  response : Response := {}
  request : Request := {}
  processStop : Bool := false
  pc : Pc := .epollCreate
  deriving DecidableEq

/-- What `epoll_wait` returns. -/
inductive EpollResult
  | error
  | eintr
  | timeout
  | ready (fds : List Int)
  deriving DecidableEq

/-- What `write(2)` on the connection does. -/
inductive WriteResult
  | wrote (n : ℕ)
  | failed
  | sigpipe
  deriving DecidableEq

/-- What `write_file` does. Its bytes may be lost in `fclose`, whose result it
does not look at: then it returns normally and the file holds something else. -/
inductive FileWrite
  | complete
  | silent (kept : Bytes)
  | failed (kept : Bytes)
  deriving DecidableEq

/-- One step of `directory_iterator`. -/
inductive DirResult
  | entry (pid : Int)
  | done
  | error
  deriving DecidableEq

/-- The files of a cgroup leaf that `handle_request` writes. -/
inductive CgroupFile
  | memlimit
  | memswlimit
  | procs
  | notify
  deriving DecidableEq

/-- What a manager does in one step: a system call with its result, or `tau` for
a step that only computes. -/
inductive Label
  | tau
  /-- SIGTERM arrives; `trusted` says that process 1 or the parent sent it. -/
  | sigterm (trusted : Bool)
  | epollCreate1 (fd : Int)
  | epollAdd (fd : Int) (ok : Bool)
  /-- `epoll_ctl(EPOLL_CTL_DEL)` and the `closefd` after it. -/
  | epollDel (fd : Int)
  | epollWait (r : EpollResult)
  | waitpid (r : Option (Int × WaitStatus))
  | argsRead (dies : Bool)
  | kill (pid : Int)
  | sleep
  /-- `flock` on `lockfd`. -/
  | flock (op : Flock.Op)
  | unlink (pid : Int)
  | rmdir (pid : Int)
  | read (c : Option Chunk)
  | write (data : Bytes) (r : WriteResult)
  | receive (reads : List (Chunk × Int))
  /-- The file system that `find_command` looks at; `none` when `exists` throws. -/
  | lookup (fs : Option FileSystem)
  | load (found : Bool) (pipe : Option (Int × Int))
  | clone (pid : Int)
  | createLeaf (pid : Int) (ok : Bool)
  | memswExists (pid : Int) (r : Option Bool)
  | writeCgroup (pid : Int) (file : CgroupFile) (value : String) (r : FileWrite)
  | regCreate (pid : Int) (ok : Bool)
  | regWrite (pid : Int) (data : Bytes) (r : FileWrite)
  | bind (fd : Int) (added : Bool)
  | timerfdCreate (fd : Int)
  | timerfdSettime (seconds : Int32) (ok : Bool)
  | readdir (r : DirResult)
  /-- `read_file` and `last_write_time` of a registry entry. -/
  | readEntry (pid : Int) (r : Option (Bytes × Int64))
  /-- `exists(tmpfs/<pid>)`; `none` when it throws. -/
  | regExists (pid : Int) (r : Option Bool)

end Srun
