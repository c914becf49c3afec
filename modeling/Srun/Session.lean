import Srun.Answers
import Srun.Framing

/-!
# A client, its manager and the connection between them

`Srunc::exec` is a small state machine: it writes the request, then polls, reads a
message, answers a heartbeat and polls again, and returns with the first message
that is none. `Session` puts it next to the manager process, with the messages
that have been written and not been read in each direction.

The session is the one in which framing works: each call of `recv_message` and of
`Srunc::recvMessage` reads exactly one message, and a write succeeds as long as the
other end is open. How reads cut the stream is the subject of `Srun.Framing`.
-/

namespace Srun

/-! ### The client -/

/-- The calls of `Srunc`. -/
inductive Call
  | run (request : Request)
  | list
  | stop (pids : List Int32)
  deriving DecidableEq

/-- The message that `Srunc::run`, `list` and `stop` pass to `exec`. -/
def Call.message : Call → Message
  | .run request => { method := .exe, request := some request }
  | .list => { method := .list }
  | .stop pids => { method := .stop, runlist := pids.map fun pid => { pid := pid } }

/-- Program points of `Srunc::exec`, and its result. -/
inductive SruncPc
  | request
  | poll
  | ack
  /-- `exec` has returned true, with this message. -/
  | returned (m : Message)
  /-- `exec` has returned false, or the process has died in a write. -/
  | failed
  deriving DecidableEq

def ackMessage : Message := { method := .ack }

/-- The loop of `Srunc::exec` after `recvMessage`. -/
def SruncPc.received : Option Message → SruncPc
  | none => .failed
  | some m => if m.method = .syn then .ack else .returned m

theorem SruncPc.received_eq_returned {r : Option Message} {m : Message}
    (h : SruncPc.received r = .returned m) : r = some m ∧ m.method ≠ .syn := by
  cases r with
  | none => cases h
  | some m' =>
    simp only [SruncPc.received] at h
    split at h
    · cases h
    · next hm => cases h; exact ⟨rfl, hm⟩

theorem SruncPc.received_ne_request {r : Option Message} : SruncPc.received r ≠ .request := by
  cases r with
  | none => simp [SruncPc.received]
  | some m => simp only [SruncPc.received]; split <;> simp

/-! ### The session -/

/-- A client and the manager that serves it. -/
structure Session where
  client : SruncPc := .request
  /-- The client's socket is closed. -/
  closed : Bool := false
  proc : Proc
  toManager : List Bytes := []
  toClient : List Bytes := []

/-- What can happen in a session. -/
inductive SessionEvent
  /-- The client's `sendMessage`, of its request or of an ACK. -/
  | send
  /-- `poll` and `recvMessage`. -/
  | receive
  /-- An exception in `exec`, or the death of the client in a write. -/
  | fail
  /-- `~Srunc`, or the end of the client's process. -/
  | close
  | server (ev : Event)

namespace Session

/-- The call `call` begins; the daemon has accepted its connection as `fd`. -/
def start (fd : ℕ) : Session := { proc := Proc.start fd }

/-- The manager's end is open. -/
def serverOpen (s : Session) : Bool :=
  s.proc.mgr.connection ≠ -1 && !(s.proc.mgr.pc matches .gone _)

/-- What the two sockets can give the manager. A read gives bytes of the first
message only, and reports that there are no more at its end; without a message it
reports the end of the stream when the client has closed. -/
def admits (s : Session) : Event → Bool
  | .mgr (.read (some c)) =>
    match s.proc.mgr.pc, s.toManager with
    | .recv data _, b :: _ => s.serverOpen && (data ++ c.bytes).isPrefixOf b
    | _, _ => false
  | .mgr (.read none) =>
    match s.proc.mgr.pc with
    -- nothing read: that is the end of the stream
    | .recv [] _ => s.closed || !s.serverOpen
    -- `EAGAIN` after the whole message, which is what framing asks for
    | .recv data _ => s.toManager.head? = some data
    | _ => false
  | .mgr (.write data r) =>
    if s.serverOpen && !s.closed then r = .wrote data.length else r = .failed || r = .sigpipe
  | _ => true

/-- The messages to the manager after one of its steps. -/
def toManagerAfter (s : Session) : Event → List Bytes
  | .mgr (.read none) => if s.proc.mgr.pc matches .recv [] _ then s.toManager else s.toManager.tail
  | _ => s.toManager

/-- The messages to the client after a step of the manager. -/
def toClientAfter (s : Session) : Event → List Bytes
  | .mgr (.write data (.wrote _)) => s.toClient ++ [data]
  | _ => s.toClient

/-- The client writes a message; nothing is there to be read when it is empty. -/
def write (E : Env) (s : Session) (m : Message) : Session :=
  match E.serialize m with
  | none => { s with client := .failed }
  | some b =>
    { s with client := .poll, toManager := s.toManager ++ if b = [] then [] else [b] }

/-- One step of a session for `call`. -/
def step (E : Env) (call : Call) (s : Session) : SessionEvent → Option Session
  | .send =>
    match s.client with
    | .request => some (s.write E call.message)
    -- the answer to a heartbeat; on a closed connection the write fails instead
    | .ack => if s.serverOpen then some (s.write E ackMessage) else none
    | _ => none
  | .receive =>
    match s.client, s.toClient with
    | .poll, b :: bs =>
      -- with the answer in hand `exec` returns, and `~Srunc` closes the socket
      let pc := SruncPc.received (recvMessage E b)
      some { s with client := pc, closed := pc matches .returned _, toClient := bs }
    | _, _ => none
  | .fail =>
    match s.client with
    | .request | .poll | .ack => some { s with client := .failed }
    | _ => none
  | .close => if s.client = .failed then some { s with closed := true } else none
  | .server ev =>
    if s.admits ev then
      (s.proc.step E ev).map fun p =>
        { s with proc := p, toManager := s.toManagerAfter ev, toClient := s.toClientAfter ev }
    else none

/-- The client reads the message that is next. -/
theorem step_receive {E : Env} {call : Call} {s : Session} {b : Bytes} {bs : List Bytes}
    (hclient : s.client = .poll) (hnext : s.toClient = b :: bs) :
    s.step E call .receive = some { s with
      client := .received (recvMessage E b)
      closed := SruncPc.received (recvMessage E b) matches .returned _
      toClient := bs } := by
  simp only [step, hclient, hnext]

end Session
end Srun
