import Srun.Client
import Srun.Waiting

/-!
# Srunc::run and its manager

The call of `Srun.Client`, with every system call that it makes, next to the manager of its
connection. A session has only the points of `exec` at which it talks to the manager;
`Dialogue.session` forgets the others, and a read that is cut into chunks is a step of the
session at its end.

By `Dialogue.reachable_session` nothing is lost by that: a call and its manager only get to
states of a session. So what has been shown of a session holds of them: `answered_once` is
about what `run` returns with, and `polls_for_command` about what it waits for.
-/

namespace Srun

namespace Client

variable {E : Env} {request : Request} {s s' : Client} {ev : ClientEvent} {m : Message}

/-- The program point as a session has it. What comes before the request is the request, and a
message that is read in pieces is not seen before its end. -/
def view (s : Client) : SruncPc :=
  match s.pc with
  | .send m => if m = ackMessage then .ack else .request
  | .poll => .poll
  | .recv _ => .poll
  | .returned result => if result then s.message.elim .failed .returned else .failed
  | .terminated => .failed
  | .killed => .failed
  | _ => .request

/-- What `exec` sends is the request or the answer to a heartbeat. -/
def Sends (request : Request) (s : Client) : Prop :=
  ∀ m, s.pc = .send m → m = (Call.run request).message ∨ m = ackMessage

theorem view_throw (s : Client) (e : Thrown) : (s.throw e).view = .failed := by
  unfold throw
  split <;> rfl

theorem throw_ne_send (s : Client) (e : Thrown) (m : Message) : (s.throw e).pc ≠ .send m := by
  unfold throw
  split <;> exact fun h => by cases h

theorem view_run (s : Client) (request : Request) :
    (s.goto (.send (Call.run request).message)).view = .request := by
  have hne : (Call.run request).message ≠ ackMessage := fun h => by
    cases congrArg Message.method h
  simp [view, goto, hne]

theorem view_received (s : Client) (m : Message) :
    (s.received m).view = SruncPc.received (some m) := by
  by_cases hm : m.method = .syn <;> simp [received, view, SruncPc.received, hm]

theorem view_of_send (hpc : s.pc = .send m) :
    s.view = if m = ackMessage then .ack else .request := by
  simp only [view, hpc]

theorem sends_step (h : s.step E request ev = some s') : Sends request s' := by
  intro m hm
  cases step_cases h with
  | connect => exact Or.inl (ClientPc.send.inj hm).symm
  | received =>
    -- a heartbeat is answered, anything else is returned
    rw [received] at hm
    split at hm
    · exact Or.inr (ClientPc.send.inj hm).symm
    · cases hm
  | skip hc | create hc => cases hc <;> cases hm
  | createEmpty | createFail | throws => exact absurd hm (throw_ne_send _ _ _)
  | _ => cases hm

/-- A call that has returned true has a message. -/
def HasMessage (s : Client) : Prop := s.pc = .returned true → ∃ m, s.message = some m

theorem hasMessage_step (h : s.step E request ev = some s') : HasMessage s' := by
  intro hpc
  cases step_cases h with
  | received => exact ⟨_, rfl⟩
  | createEmpty | createFail | throws =>
    unfold throw at hpc
    split at hpc <;> cases hpc
  | skip hc | create hc => cases hc <;> cases hpc
  | _ => cases hpc

/-- A message that is written whole; its size is one that `write` can return. -/
theorem step_write {data : Bytes} (hlen : data.length < 2 ^ 31)
    (h : s.step E request (.write data (.wrote data.length)) = some s') :
    ∃ m, s.pc = .send m ∧ E.serialize m = some data ∧ s'.view = .poll := by
  cases hpc : s.pc with
  | send m =>
    simp only [step, hpc, sendMessage] at h
    obtain ⟨hdata, h⟩ := Option.ite_none_right_eq_some.mp h
    rw [if_pos (le_refl _), Int32.toInt_ofNat_of_lt hlen, if_pos rfl] at h
    cases h
    exact ⟨m, rfl, hdata, rfl⟩
  | createOut | createErr =>
    simp only [step, hpc] at h
    split at h <;> cases h
  | _ => simp [step, hpc, recvMessage] at h

/-- What has been read is taken as a message, or the call fails. -/
theorem step_read {data : Bytes} (hpc : s.pc = .recv data) (hne : data ≠ [])
    (h : s.step E request (.read none) = some s') :
    s'.view = SruncPc.received (Srun.recvMessage E data) := by
  simp only [step, hpc, recvMessage, if_neg hne] at h
  rw [Srun.recvMessage, if_neg hne]
  split at h
  · next m hm =>
    cases h
    rw [hm]
    exact view_received s m
  · next hm =>
    cases h
    rw [hm]
    exact view_throw _ _

/-- A session does not see the other steps, unless the call fails. These are the steps that send
no message and finish none. -/
theorem view_step (h : s.step E request ev = some s')
    (hwrite : ∀ data n, ev ≠ .write data (.wrote n))
    (hread : ∀ data, s.pc = .recv data → ev = .read none → data = []) :
    s'.view = s.view ∨ s'.view = .failed := by
  cases step_cases h with
  | skip hc | create hc =>
    cases hc with
    | out hpc | err hpc => exact Or.inl (by simp [view, goto, hpc])
  | createEmpty | createFail | throws => exact Or.inr (view_throw _ _)
  | build hpc | socket hpc | poll hpc | readChunk c hpc => exact Or.inl (by simp [view, goto, hpc])
  | connect hpc => exact Or.inl ((view_run s request).trans (by simp only [view, hpc]))
  | sent => exact absurd rfl (hwrite _ _)
  | sigpipe => exact Or.inr rfl
  | received hpc hne => exact absurd (hread _ hpc rfl) hne

/-- A call that does a step has not failed, nor has it returned. -/
theorem view_active (h : s.step E request ev = some s') :
    s.view = .request ∨ s.view = .poll ∨ s.view = .ack := by
  cases hpc : s.pc with
  | send m =>
    rw [view_of_send hpc]
    split
    · exact Or.inr (Or.inr rfl)
    · exact Or.inl rfl
  | returned result => simp [step, hpc] at h
  | terminated => simp [step, hpc] at h
  | killed => simp [step, hpc] at h
  | _ => simp [view, hpc]

end Client

/-! ### Both sides -/

/-- A call of `run`, and the manager that serves it. -/
structure Dialogue where
  client : Client := {}
  /-- The client's socket is closed. -/
  closed : Bool := false
  proc : Proc
  toManager : List Bytes := []
  toClient : List Bytes := []

inductive DialogueEvent
  | client (ev : ClientEvent)
  /-- `~Srunc`, or the end of the client's process. -/
  | close
  | server (ev : Event)

namespace Dialogue

/-- The call begins; the daemon has accepted its connection as `fd`. -/
def start (fd : ℕ) : Dialogue := { proc := Proc.start fd }

/-- The session of which the call is the client. -/
def session (d : Dialogue) : Session where
  client := d.client.view
  closed := d.closed
  proc := d.proc
  toManager := d.toManager
  toClient := d.toClient

/-- What the socket can give the client. As in a session a message is written whole and read
by itself; `write` takes less than 2 GB at a time. -/
def admits (d : Dialogue) : ClientEvent → Bool
  | .write data (.wrote n) => d.session.serverOpen && n = data.length && data.length < 2 ^ 31
  | .read (some c) =>
    match d.client.pc, d.toClient with
    | .recv data, b :: _ => (data ++ c.bytes).isPrefixOf b
    | _, _ => false
  | .read none =>
    match d.client.pc with
    -- nothing read: that is the end of the stream
    | .recv [] => !d.session.serverOpen
    | .recv data => d.toClient.head? = some data
    | _ => false
  | _ => true

/-- The sockets after a step that leads the call to `c`. -/
def after (d : Dialogue) (c : Client) : ClientEvent → Dialogue
  | .write data (.wrote _) =>
    { d with client := c, toManager := d.toManager ++ if data = [] then [] else [data] }
  | .read none =>
    match d.client.pc with
    | .recv (_ :: _) =>
      -- with the answer in hand `exec` returns, and `~Srunc` closes the socket
      { d with client := c, closed := c.view matches .returned _, toClient := d.toClient.tail }
    | _ => { d with client := c }
  | _ => { d with client := c }

/-- One step. -/
def step (E : Env) (request : Request) (d : Dialogue) : DialogueEvent → Option Dialogue
  | .client ev => if d.admits ev then (d.client.step E request ev).map (d.after · ev) else none
  | .close => if d.client.view = .failed then some { d with closed := true } else none
  | .server ev =>
    if d.session.admits ev then
      (d.proc.step E ev).map fun p =>
        { d with
          proc := p
          toManager := d.session.toManagerAfter ev
          toClient := d.session.toClientAfter ev }
    else none

variable {E : Env} {request : Request} {d d' : Dialogue} {c : Client} {ev : ClientEvent}

theorem session_fail {s : Session}
    (h : s.client = .request ∨ s.client = .poll ∨ s.client = .ack) :
    s.step E (.run request) .fail = some { s with client := .failed } := by
  rcases h with h | h | h <;> simp [Session.step, h]

/-- The request, or the answer to a heartbeat. -/
theorem session_send {data : Bytes} {n : ℕ} (hs : d.client.Sends request)
    (hadm : d.admits (.write data (.wrote n)) = true)
    (h : d.client.step E request (.write data (.wrote n)) = some c) :
    d.session.step E (.run request) .send = some (d.after c (.write data (.wrote n))).session := by
  simp only [admits, Bool.and_eq_true, decide_eq_true_eq] at hadm
  obtain ⟨⟨hopen, rfl⟩, hlen⟩ := hadm
  obtain ⟨m, hpc, hdata, hview⟩ := Client.step_write hlen h
  have hwrite : d.session.write E m = (d.after c (.write data (.wrote data.length))).session := by
    simp only [Session.write, hdata, after, session, hview]
  have hclient : d.session.client = if m = ackMessage then .ack else .request :=
    Client.view_of_send hpc
  by_cases hack : m = ackMessage
  · rw [if_pos hack] at hclient
    simp only [Session.step, hclient, hopen, if_true]
    rw [← hwrite, hack]
  · rw [if_neg hack] at hclient
    simp only [Session.step, hclient]
    -- what is no answer to a heartbeat is the request
    rw [← hwrite, (hs m hpc).resolve_right hack]

/-- The message that comes next: the read that finds the socket empty is the session's receive. -/
theorem session_receive {data : Bytes} (hpc : d.client.pc = .recv data) (hne : data ≠ [])
    (hadm : d.admits (.read none) = true) (h : d.client.step E request (.read none) = some c) :
    d.session.step E (.run request) .receive = some (d.after c (.read none)).session := by
  obtain ⟨b, rest, rfl⟩ := List.exists_cons_of_ne_nil hne
  have hhead : d.toClient.head? = some (b :: rest) := by simpa [admits, hpc] using hadm
  obtain ⟨bs, hbs⟩ := List.head?_eq_some_iff.mp hhead
  have hclient : d.session.client = .poll := by simp only [session, Client.view, hpc]
  have hafter : (d.after c (.read none)).session =
      { d.session with
        client := c.view
        closed := c.view matches .returned _
        toClient := bs } := by
    simp only [after, hpc, session, hbs, List.tail_cons]
  have hnext : d.session.toClient = (b :: rest) :: bs := hbs
  rw [hafter, Client.step_read hpc hne h]
  exact Session.step_receive hclient hnext

/-- The other steps leave the sockets as they are. -/
theorem after_eq (hwrite : ∀ data n, ev ≠ .write data (.wrote n))
    (hread : ∀ data, d.client.pc = .recv data → ev = .read none → data = []) :
    d.after c ev = { d with client := c } := by
  unfold after
  split
  · exact absurd rfl (hwrite _ _)
  · split
    · next hpc => cases hread _ hpc rfl
    · rfl
  · rfl

/-- **One step of both.** A session can follow it, or does not see it. A step of the server is
one of the session as it is; of the client's steps three kinds are seen. -/
theorem step_session {e : DialogueEvent} (hs : d.client.Sends request)
    (h : d.step E request e = some d') :
    d'.session = d.session ∨
      ∃ sev, d.session.step E (.run request) sev = some d'.session := by
  cases e with
  | client ev =>
    obtain ⟨hadm, h⟩ := Option.ite_none_right_eq_some.mp h
    obtain ⟨c, hc, rfl⟩ := Option.map_eq_some_iff.mp h
    by_cases hwrite : ∃ data n, ev = .write data (.wrote n)
    · obtain ⟨data, n, rfl⟩ := hwrite
      exact Or.inr ⟨.send, session_send hs hadm hc⟩
    by_cases hread : ∃ data, d.client.pc = .recv data ∧ ev = .read none ∧ data ≠ []
    · obtain ⟨data, hpc, rfl, hne⟩ := hread
      exact Or.inr ⟨.receive, session_receive hpc hne hadm hc⟩
    have hwrite' : ∀ data n, ev ≠ .write data (.wrote n) := fun data n heq =>
      hwrite ⟨data, n, heq⟩
    have hread' : ∀ data, d.client.pc = .recv data → ev = .read none → data = [] :=
      fun data hpc heq => by_contra fun hne => hread ⟨data, hpc, heq, hne⟩
    -- neither a whole message sent nor one received
    rw [after_eq hwrite' hread']
    rcases Client.view_step hc hwrite' hread' with hsame | hfail
    · exact Or.inl (by simp only [session, hsame])
    · refine Or.inr ⟨.fail, ?_⟩
      rw [session_fail (Client.view_active hc)]
      simp only [session, hfail]
  | close =>
    obtain ⟨hfailed, heq⟩ := Option.ite_none_right_eq_some.mp h
    cases heq
    exact Or.inr ⟨.close, by simp only [Session.step, session, hfailed, if_true]⟩
  | server ev =>
    obtain ⟨hadm, h⟩ := Option.ite_none_right_eq_some.mp h
    obtain ⟨p, hp, rfl⟩ := Option.map_eq_some_iff.mp h
    refine Or.inr ⟨.server ev, ?_⟩
    rw [Session.step, if_pos hadm, show d.session.proc = d.proc from rfl, hp]
    rfl

theorem after_client : (d.after c ev).client = c := by
  unfold after
  split
  · rfl
  · split <;> rfl
  · rfl

/-- What a step of both is for the call. -/
theorem client_cases {e : DialogueEvent} (h : d.step E request e = some d') :
    d'.client = d.client ∨ ∃ ev, d.client.step E request ev = some d'.client := by
  cases e with
  | client ev =>
    obtain ⟨-, h⟩ := Option.ite_none_right_eq_some.mp h
    obtain ⟨c, hc, rfl⟩ := Option.map_eq_some_iff.mp h
    rw [after_client]
    exact Or.inr ⟨ev, hc⟩
  | close =>
    obtain ⟨-, heq⟩ := Option.ite_none_right_eq_some.mp h
    cases heq
    exact Or.inl rfl
  | server ev =>
    obtain ⟨-, h⟩ := Option.ite_none_right_eq_some.mp h
    obtain ⟨p, -, rfl⟩ := Option.map_eq_some_iff.mp h
    exact Or.inl rfl

theorem sends_step {e : DialogueEvent} (hs : d.client.Sends request)
    (h : d.step E request e = some d') : d'.client.Sends request := by
  rcases client_cases h with hsame | ⟨ev, hc⟩
  · rw [hsame]
    exact hs
  · exact Client.sends_step hc

theorem hasMessage_step {e : DialogueEvent} (hs : d.client.HasMessage)
    (h : d.step E request e = some d') : d'.client.HasMessage := by
  rcases client_cases h with hsame | ⟨ev, hc⟩
  · rw [hsame]
    exact hs
  · exact Client.hasMessage_step hc

/-- **The run lemma.** A call and its manager get to states of a session only. -/
theorem reachable_session {fd : ℕ}
    (h : Machine.Reachable (step E request) (start fd) d) :
    Machine.Reachable (Session.step E (.run request)) (Session.start fd) d.session :=
  h.simulate (I := fun d => d.client.Sends request) (fun _ _ _ hs hstep => sends_step hs hstep)
    (fun _ _ _ hs hstep => step_session hs hstep) fun _ hm => by cases hm

/-- **What `run` returns with.** When a call has returned true, the response that its caller
gets is that of the one answer that the manager has written. -/
theorem answered_once {fd : ℕ} (hne : E.WritesBytes) (hE : E.ParsesBack)
    (h : Machine.Reachable (step E request) (start fd) d) (hpc : d.client.pc = .returned true) :
    ∃ m, d.proc.answers = [m] ∧ m.method = .exe ∧ d.client.response = some m.getResponse := by
  have hagreed := Session.Agreed.of_reachable hne hE (reachable_session h)
  have hmessage : d.client.HasMessage :=
    h.invariant (I := fun d => d.client.HasMessage)
      (fun _ _ _ hs hstep => hasMessage_step hs hstep) fun hno => by cases hno
  obtain ⟨m, hm⟩ := hmessage hpc
  have hreturned : d.session.client = .returned m := by
    simp only [session, Client.view, hpc, hm, if_true, Option.elim]
  obtain ⟨hmethod, hanswers⟩ := hagreed.answer hreturned
  exact ⟨m, hanswers, hmethod, by rw [Client.response, hm, Option.map_some]⟩

/-- **What `run` waits for.** When a call is in `poll`, the manager in `epoll_wait` and nothing
in flight between them, then a command has been cloned which is none for the background and is
not over with its outputs; nothing has been answered, and no heartbeat is without its ACK. -/
theorem polls_for_command {fd : ℕ} (hne : E.WritesBytes) (hE : E.ParsesBack)
    (h : Machine.Reachable (step E request) (start fd) d) (hclient : d.client.pc = .poll)
    (hmanager : d.proc.mgr.pc = .epollWait) (hup : d.toManager = []) (hdown : d.toClient = []) :
    d.proc.mgr.childStatus ≠ .noProc ∧ d.proc.mgr.request.backend = false ∧
      d.proc.mgr.execOver = false ∧ d.proc.answers = [] ∧ d.proc.mgr.isSyn = false := by
  have hpaced := Session.Paced.of_reachable hne hE (reachable_session h)
  have hpoll : d.session.client = .poll := by simp only [session, Client.view, hclient]
  exact (hpaced.waits hpoll hmanager hup hdown).2

end Dialogue
end Srun
