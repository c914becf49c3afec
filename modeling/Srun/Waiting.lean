import Srun.Agreement

/-!
# Who waits for whom

While `Srunc::exec` polls and the manager is in `epoll_wait`, each of them waits for the
other, and nothing moves until something comes from a third side. `waits_for_command` says
that it is the command they wait for: when nothing is in flight, the manager has cloned it
for this call, in the foreground, and it has not ended with its outputs. No request is left
without an answer, and no heartbeat without its ACK.

For the answer, the manager owes one as long as it serves the request (`Pc.obliged`), and it
stops only with the answer written or the command cloned. For the heartbeats there is a
balance (`Due.beats`, `Paced.acks`): a SYN is being written, in flight, in the client's hands
or answered, and the ACKs are in flight or received; `is_syn` is the difference.
-/

namespace Srun

namespace Pc

/-- A heartbeat is being written. -/
def beating : Pc → Bool
  | .send _ .heartbeat => true
  | _ => false

/-- The request is being served, for good when `loadRequest` does not return. -/
def obliged : Pc → Bool
  | .spinning _ => true
  | pc => pc.serving.isSome

end Pc

namespace Proc

variable {E : Env} {call : Call} {p p' : Proc} {ev : Event} {l : Label}

/-- What a step leaves as it is that neither reads nor writes a message: whether a backend
command was asked for, the balance of the heartbeats, and that the request is served, as long
as no command has come of it. -/
structure Unspoken (p p' : Proc) : Prop where
  backend : p'.mgr.request.backend = p.mgr.request.backend
  /-- A heartbeat begins with the flag. -/
  beat : p'.mgr.pc.beating.toNat + p.mgr.isSyn.toNat =
    p.mgr.pc.beating.toNat + p'.mgr.isSyn.toNat
  obliged : p.mgr.pc.obliged = true → p'.mgr.pc.obliged = true ∨ p'.mgr.childStatus ≠ .noProc

/-- A step between two points at which no request is served and no heartbeat is written. -/
theorem Unspoken.of_plain {m : Manager} {cs : List (Int × Life)} {hi : History}
    (hb : m.request.backend = p.mgr.request.backend) (hsyn : m.isSyn = p.mgr.isSyn)
    (hbeat : m.pc.beating = false ∧ p.mgr.pc.beating = false)
    (hpc : p.mgr.pc.obliged = true → m.pc.obliged = true) :
    Unspoken p { mgr := m, children := cs, hist := hi } where
  backend := hb
  beat := by rw [hbeat.1, hbeat.2, hsyn]
  obliged h := Or.inl (hpc h)

theorem Step.unspoken (h : Base p) (hl : Launched p) (hstep : Proc.Step E p ev p')
    (hsent : p'.hist.sent = p.hist.sent) (hrec : p'.hist.received = p.hist.received)
    (hend : p'.mgr.pc.ending = false) : Unspoken p p' := by
  cases hstep with
  | exit => exact ⟨rfl, rfl, Or.inl⟩
  | mgr hadm hm =>
    cases hm with
    | sigterm => exact ⟨rfl, rfl, Or.inl⟩
    -- an exception leaves the loop
    | throws | unlockThrow | sigpipe | argsDie => cases hend
    -- a message would be in one of the two lists
    | received hpc hdata hparse => simp [histAfter, hpc, hdata, hparse] at hrec
    | sent hpc =>
      rw [(histAfter_sent hpc).1] at hsent
      simp at hsent
    | heartbeat hpc _ _ _ hsyn =>
      -- the flag is set with the heartbeat, before it is written
      refine ⟨rfl, ?_, fun h => ?_⟩
      · rw [hpc, hsyn]
        rfl
      · rw [hpc] at h
        cases h
    | @waitNone k hpc =>
      exact .of_plain rfl rfl ⟨by cases k <;> rfl, by rw [hpc]; rfl⟩ fun h => by
        rw [hpc] at h
        cases h
    | waitOther hpc => exact ⟨rfl, rfl, Or.inl⟩
    | reap hpc =>
      exact .of_plain (Manager.reaped_field (fun s => s.request.backend) fun _ _ _ _ => rfl)
        (Manager.reaped_field Manager.isSyn fun _ _ _ _ => rfl)
        ⟨Manager.reaped_pc rfl rfl rfl, by rw [hpc]; rfl⟩ fun h => by
          rw [hpc] at h
          cases h
    | argsSurvive hpc =>
      exact .of_plain (Manager.clearEntry_field (fun s => s.request.backend) fun _ _ => rfl)
        (Manager.clearEntry_field Manager.isSyn fun _ _ => rfl)
        ⟨Manager.clearEntry_pc rfl rfl, by rw [hpc]; rfl⟩ fun h => by
          rw [hpc] at h
          cases h
    | @stopKill k hpc | @stopIdle k hpc =>
      exact .of_plain rfl rfl ⟨by cases k <;> rfl, by rw [hpc]; rfl⟩ fun h => by
        rw [hpc] at h
        cases h
    | loopCheck hpc =>
      exact .of_plain rfl rfl
        ⟨Manager.loopCheck_pc rfl (fun _ _ _ => rfl) fun _ => rfl, by rw [hpc]; rfl⟩ fun h => by
          rw [hpc] at h
          cases h
    | dispatch evs hpc =>
      exact .of_plain rfl rfl
        ⟨Manager.dispatch_pc rfl (fun _ => rfl) (fun _ _ => rfl) (fun _ _ => rfl) fun _ => rfl,
          by rw [hpc]; rfl⟩ fun h => by
          rw [hpc] at h
          cases h
    | @findFound _ _ fs r hpc hf =>
      -- `find_command` changes the arguments only
      have hb : r.backend = p.mgr.request.backend := by
        have hsame : (findCommand fs p.mgr.request).2.backend = p.mgr.request.backend :=
          findCommand_backend
        rwa [hf] at hsame
      exact .of_plain hb rfl ⟨rfl, by rw [hpc]; rfl⟩ fun _ => rfl
    -- the request is not served any further: a command is running
    | handleReject hpc hpid =>
      refine ⟨rfl, by rw [hpc]; rfl, fun _ => Or.inr fun hno => ?_⟩
      -- the pid of a command that is not reaped is positive
      have := h.core.cleared (by rw [show p.mgr.childStatus = .noProc from hno]; decide)
        (by rw [hpc]; rfl)
      omega
    | replyForeground hpc hb =>
      refine ⟨rfl, by rw [hpc]; rfl, fun _ => Or.inr fun hno => ?_⟩
      have hrun : p.mgr.childStatus = .procRunning := hl (by rw [hpc]; rfl)
      cases hrun.symm.trans hno
    | loadOutFail | loadErrFail | cloneFail | bindOutFail | bindErrFail | timerCreateFail
    | epollCreateFail => cases hend
    | _ =>
      -- on from one point of the service to the next, or between two that serve nothing
      have hpc := ‹p.mgr.pc = _›
      first
        | exact .of_plain rfl rfl ⟨rfl, by rw [hpc]; rfl⟩ fun _ => rfl
        | exact .of_plain rfl rfl ⟨rfl, by rw [hpc]; rfl⟩ fun h => by
            rw [hpc] at h
            cases h

/-- The heartbeats that have been written. -/
def beats (p : Proc) : ℕ := (p.hist.sent.filter (·.method = .syn)).length

/-- What a manager owes its client, in a run in which an ACK only comes while it is waited
for. -/
structure Due (E : Env) (call : Call) (p : Proc) : Prop where
  served : Served E call p
  launched : Launched p
  /-- The flag is set with an answer. -/
  flag : p.mgr.resultSendback = true → p.answers ≠ []
  /-- A backend command is answered with its set-up. -/
  backend : p.mgr.childStatus ≠ .noProc → p.mgr.request.backend = true →
    p.mgr.pc.ending = false → p.mgr.pc.setup = true ∨ p.mgr.resultSendback = true
  /-- The request does not get lost. -/
  owed : p.hist.received ≠ [] → p.mgr.pc.ending = false →
    p.mgr.resultSendback = true ∨ p.mgr.childStatus ≠ .noProc ∨ p.mgr.pc.obliged = true
  /-- The messages after the request are ACKs. -/
  beats : p.mgr.pc.ending = false →
    p.beats + p.mgr.pc.beating.toNat = p.hist.received.tail.length + p.mgr.isSyn.toNat

theorem Due.start (fd : ℕ) : Due E call (start fd) where
  served := .start fd
  launched := .start fd
  flag h := by cases h
  backend h := absurd rfl h
  owed h := absurd rfl h
  beats _ := rfl

/-- A step without a message. -/
theorem Due.silent (h : Due E call p) (hserved : Served E call p') (hstep : Proc.Step E p ev p')
    (hsent : p'.hist.sent = p.hist.sent) (hrec : p'.hist.received = p.hist.received)
    (hwrite : ∀ data, ev ≠ .mgr (.write data (.wrote data.length))) : Due E call p' := by
  have hcore := h.served.base.core
  have hans : p'.answers = p.answers := by rw [answers, hsent, answers]
  have hend : p'.mgr.pc.ending = false → p.mgr.pc.ending = false := fun he =>
    Bool.eq_false_iff.mpr fun he' => by simp [hstep.ending hcore he'] at he
  have hun := hstep.unspoken h.served.base h.launched hsent hrec
  have hlaunched := h.launched.step hcore hstep
  -- only a write of a whole message sets the flag
  have hflag : p'.mgr.resultSendback = p.mgr.resultSendback := by
    cases hstep.effect hcore with
    | quiet _ hflag | clone _ _ _ _ hflag => exact hflag
    | sent _ hev => exact absurd hev (hwrite _)
  constructor
  case served => exact hserved
  case launched => exact hlaunched
  case flag =>
    rw [hflag, hans]
    exact h.flag
  case backend =>
    -- a backend command is in its set-up, from `clone` to the answer
    intro hst hb he
    rw [(hun he).backend] at hb
    cases hstep.effect hcore with
    | quiet _ _ _ _ hst' _ hout =>
      rcases h.backend (fun hno => hst (hst'.mpr hno)) hb (hend he) with hset | hf
      · rcases hout hset with hset | he' | hb'
        · exact Or.inl hset
        · rw [he] at he'
          cases he'
        · rw [hb] at hb'
          cases hb'
      · exact Or.inr (hflag.trans hf)
    | clone _ _ _ _ _ _ _ _ hset => exact Or.inl hset
    | sent _ hev => exact absurd hev (hwrite _)
  case owed =>
    intro hne he
    rw [hflag]
    -- who has been answered, who has a command, and whom the manager still serves
    rcases h.owed (hrec ▸ hne) (hend he) with hf | hst | hob
    · exact Or.inl hf
    · refine Or.inr (Or.inl ?_)
      cases hstep.effect hcore with
      | quiet _ _ _ _ hst' => exact fun hno => hst (hst'.mp hno)
      | clone _ _ _ _ _ _ _ hrun => exact fun hno => by rw [hrun] at hno; cases hno
      | sent _ hev => exact absurd hev (hwrite _)
    · exact Or.inr ((hun he).obliged hob).symm
  case beats =>
    -- neither list is longer, and a heartbeat begins with the flag
    intro he
    have hbeats := h.beats (hend he)
    have hbeat := (hun he).beat
    rw [Proc.beats, hsent, hrec]
    rw [Proc.beats] at hbeats
    omega

/-- What the last read of a message leads to. -/
theorem step_read {data : Bytes} {evs : List Int} (hpc : p.mgr.pc = .recv data evs)
    (hdata : data ≠ []) (hstep : p.step E (.mgr (.read none)) = some p') :
    p'.mgr = p.mgr.raise ∨
      ∃ m, E.parse data = some m ∧ p'.mgr = Manager.received E p.mgr data m evs := by
  have hrecv : p.mgr.recvMessage E data evs (.read none) = some p'.mgr := by
    simpa only [Manager.step, Manager.codeStep, hpc] using step_manager hstep
  simp only [Manager.recvMessage, if_neg hdata] at hrecv
  split at hrecv
  · next m hm => exact Or.inr ⟨m, hm, (Option.some.inj hrecv).symm⟩
  · exact Or.inl (Option.some.inj hrecv).symm

/-- What a message that has been written leads to. -/
theorem step_wrote {m : Message} {k : SendRet} {data : Bytes} (hpc : p.mgr.pc = .send m k)
    (hstep : p.step E (.mgr (.write data (.wrote data.length))) = some p') :
    p'.mgr = { p.mgr with resultSendback := p.mgr.resultSendback || m.isResult }.goto k.pc := by
  have hsend : p.mgr.sendMessage E m k (.write data (.wrote data.length)) = some p'.mgr := by
    simpa only [Manager.step, Manager.codeStep, hpc] using step_manager hstep
  -- the count is the length, so the call returns
  obtain ⟨-, hsend⟩ := Option.ite_none_right_eq_some.mp hsend
  rw [if_pos rfl] at hsend
  exact (Option.some.inj hsend).symm

/-- The request is served, and the flag of the heartbeats is left alone. -/
theorem received_call (E : Env) (call : Call) (s : Manager) (data : Bytes) (evs : List Int) :
    (Manager.received E s data call.message evs).isSyn = s.isSyn ∧
      (Manager.received E s data call.message evs).pc.obliged = true ∧
      (Manager.received E s data call.message evs).pc.beating = false := by
  cases call with
  | run r =>
    -- an EXE is served, or `loadRequest` does not return
    simp only [Manager.received, Call.message]
    split <;> exact ⟨rfl, rfl, rfl⟩
  | list => exact ⟨rfl, rfl, rfl⟩
  | stop pids => exact ⟨rfl, rfl, rfl⟩

theorem received_ack {s : Manager} {data : Bytes} {m : Message} {evs : List Int}
    (hm : m.method = .ack) :
    Manager.received E s data m evs = { s with isSyn := false, pc := .dispatch evs } := by
  rw [Manager.received, hm]

/-- A message has been read: the request, or an ACK that is waited for. -/
theorem Due.read (h : Due E call p) (hserved : Served E call p') {data : Bytes} {evs : List Int}
    (hpc : p.mgr.pc = .recv data evs) (hdata : data ≠ [])
    (hstep : p.step E (.mgr (.read none)) = some p') (hsent : p'.hist.sent = p.hist.sent)
    (hrec : p'.hist.received = p.hist.received ++ (E.parse data).toList)
    (hreq : Requests call p'.hist.received)
    (hack : p.hist.received ≠ [] → p.mgr.isSyn = true) : Due E call p' := by
  have hcore := h.served.base.core
  have hans : p'.answers = p.answers := by rw [answers, hsent, answers]
  have hlaunched := h.launched.step hcore (step_cases hstep)
  have hend : p.mgr.pc.ending = false := by rw [hpc]; rfl
  rcases step_read hpc hdata hstep with hmgr | ⟨m, hm, hmgr⟩
  · -- the bytes are no message
    refine ⟨hserved, hlaunched, ?_, fun _ _ he => ?_, fun _ he => ?_, fun he => ?_⟩
    · rw [hmgr, hans]
      exact h.flag
    all_goals
      rw [hmgr] at he
      cases he
  have hflag : p'.mgr.resultSendback = p.mgr.resultSendback := by
    rw [hmgr]
    exact Manager.received_field Manager.resultSendback fun _ _ _ => rfl
  have hst : p'.mgr.childStatus = p.mgr.childStatus := by
    rw [hmgr]
    exact Manager.received_field Manager.childStatus fun _ _ _ => rfl
  have hbeats : p.beats + 0 = p.hist.received.tail.length + p.mgr.isSyn.toNat := by
    have := h.beats hend
    rwa [hpc] at this
  have hsame : p'.beats = p.beats := by rw [Proc.beats, hsent, Proc.beats]
  rw [hm, Option.toList_some] at hrec
  rw [hrec] at hreq
  -- the first message is the request, and every other one an ACK
  rcases hreq.concat with ⟨hnil, rfl⟩ | ⟨hne, hmethod⟩
  · -- the request
    obtain ⟨hsyn, hobliged, hbeating⟩ := received_call E call p.mgr data evs
    rw [← hmgr] at hsyn hobliged hbeating
    refine ⟨hserved, hlaunched, ?_, fun hrun => ?_, fun _ _ => ?_, fun _ => ?_⟩
    · rw [hflag, hans]
      exact h.flag
    · exact absurd (hst.trans (h.served.fresh hnil).2) hrun
    · exact Or.inr (Or.inr hobliged)
    · rw [hsame, hbeating, hsyn, hrec, hnil]
      rw [hnil] at hbeats
      exact hbeats
  · -- an ACK
    rw [received_ack hmethod] at hmgr
    refine ⟨hserved, hlaunched, ?_, ?_, fun _ _ => ?_, fun _ => ?_⟩
    · rw [hflag, hans]
      exact h.flag
    · rw [hst, hflag]
      intro hrun hb _
      rw [hmgr] at hb
      -- the set-up reads no messages
      exact (h.backend hrun hb hend).imp_left fun hset => by rw [hpc] at hset; cases hset
    · rw [hflag, hst]
      rcases h.owed hne hend with hf | hrun | hob
      · exact Or.inl hf
      · exact Or.inr (Or.inl hrun)
      -- `recv_message` serves nothing before it has read a message
      · rw [hpc] at hob
        cases hob
    · have hlen : (p.hist.received ++ [m]).tail.length = p.hist.received.tail.length + 1 := by
        rw [List.tail_append_of_ne_nil hne, List.length_append, List.length_singleton]
      -- the flag goes down and an ACK more has come
      rw [hack hne] at hbeats
      rw [hsame, hrec, hlen, hmgr]
      exact hbeats

/-- A message has been written. -/
theorem Due.wrote (h : Due E call p) (hserved : Served E call p') {m : Message} {k : SendRet}
    {data : Bytes} (hpc : p.mgr.pc = .send m k)
    (hstep : p.step E (.mgr (.write data (.wrote data.length))) = some p')
    (hsent : p'.hist.sent = p.hist.sent ++ [m]) (hrec : p'.hist.received = p.hist.received) :
    Due E call p' := by
  have hcore := h.served.base.core
  have hlaunched := h.launched.step hcore (step_cases hstep)
  have hend : p.mgr.pc.ending = false := by rw [hpc]; rfl
  have hmgr := step_wrote hpc hstep
  have hpc' : p'.mgr.pc.setup = false ∧ p'.mgr.pc.beating = false := by
    rw [hmgr]
    cases k <;> exact ⟨rfl, rfl⟩
  have hflag : p'.mgr.resultSendback = (p.mgr.resultSendback || m.isResult) := by rw [hmgr]; rfl
  have hst : p'.mgr.childStatus = p.mgr.childStatus := by rw [hmgr]; rfl
  have hbeats := h.beats hend
  -- a heartbeat, or else the answer
  have hkind : (p.mgr.pc.beating = true ∧ m.method = .syn) ∨
      (p.mgr.pc.beating = false ∧ m.isResult = true) := by
    cases k with
    | heartbeat =>
      refine Or.inl ⟨?_, h.served.voice.heartbeat m hpc⟩
      rw [hpc]
      rfl
    | _ =>
      refine Or.inr ⟨by rw [hpc]; rfl, call.isResult ?_⟩
      exact (h.served.serving m.method (by rw [hpc]; rfl)).2.1
  have hsyn : m.isResult = true → m.method ≠ .syn := fun hm heq => by
    simp [Message.isResult, heq] at hm
  refine ⟨hserved, hlaunched, fun hf => ?_, fun hrun hb _ => ?_, fun hne _ => ?_, fun _ => ?_⟩
  -- the answer is among the messages when the flag is set
  · rw [answers, hsent, List.filter_append]
    rw [hflag] at hf
    rcases Bool.or_eq_true_iff.mp hf with hf | hm
    · exact List.append_ne_nil_of_left_ne_nil (h.flag hf) _
    · refine List.append_ne_nil_of_right_ne_nil _ ?_
      simp [hsyn hm]
  · rw [hflag]
    rw [hst] at hrun
    rw [hmgr] at hb
    refine Or.inr ?_
    rcases h.backend hrun hb hend with hset | hf
    · -- in the set-up, only the answer of a backend command is sent
      rcases hkind with ⟨hbeating, -⟩ | ⟨-, hm⟩
      · rw [hpc] at hset hbeating
        cases k with
        | heartbeat => cases hset
        | _ => cases hbeating
      · rw [hm, Bool.or_true]
    · rw [hf, Bool.true_or]
  · rw [hflag, hst]
    rcases h.owed (hrec ▸ hne) hend with hf | hrun | hob
    · exact Or.inl (by rw [hf, Bool.true_or])
    · exact Or.inr (Or.inl hrun)
    -- the service ends with the answer
    · rcases hkind with ⟨hbeating, -⟩ | ⟨-, hm⟩
      · rw [hpc] at hob hbeating
        cases k with
        | heartbeat => cases hob
        | _ => cases hbeating
      · exact Or.inl (by rw [hm, Bool.or_true])
  · rw [Proc.beats, hsent, hrec, hpc'.2, List.filter_append, List.length_append]
    have hsame : p'.mgr.isSyn = p.mgr.isSyn := by rw [hmgr]; rfl
    rw [hsame]
    rw [Proc.beats] at hbeats
    -- a heartbeat that was being written has been written now
    rcases hkind with ⟨hbeating, hm⟩ | ⟨hbeating, hm⟩
    · rw [hbeating] at hbeats
      simpa [hm] using hbeats
    · rw [hbeating] at hbeats
      simpa [hsyn hm] using hbeats

/-- The connection is left alone but for its closing, which begins with a read of nothing. -/
theorem Step.connected (hstep : Proc.Step E p ev p') (hend : p'.mgr.pc.ending = false)
    (hopen : ∀ evs, p.mgr.pc ≠ .disconnect evs) :
    p'.mgr.connection = p.mgr.connection ∧
      ∀ evs, p'.mgr.pc = .disconnect evs →
        ev = .mgr (.read none) ∧ ∃ evs, p.mgr.pc = .recv [] evs := by
  cases hstep with
  | exit => exact ⟨rfl, fun evs hpc => absurd hpc (hopen evs)⟩
  | mgr hadm hm =>
    cases hm with
    | sigterm => exact ⟨rfl, fun evs hpc => absurd hpc (hopen evs)⟩
    -- what begins with the client's end of file is excluded
    | waitOther hpc => exact ⟨rfl, fun evs hpc => absurd hpc (hopen evs)⟩
    | disconnectStop hpc | disconnect hpc => exact absurd hpc (hopen _)
    | destroyClose => cases hend
    | readNothing hpc => exact ⟨rfl, fun _ _ => ⟨rfl, _, hpc⟩⟩
    | received =>
      exact ⟨Manager.received_field Manager.connection fun _ _ _ => rfl,
        Manager.received_pc (by simp) (by simp) (by simp) (by simp) (by simp) (by simp)⟩
    | reap =>
      exact ⟨Manager.reaped_field Manager.connection fun _ _ _ _ => rfl,
        Manager.reaped_pc (by simp) (by simp) (by simp)⟩
    | argsSurvive =>
      exact ⟨Manager.clearEntry_field Manager.connection fun _ _ => rfl,
        Manager.clearEntry_pc (by simp) (by simp)⟩
    | dispatch =>
      exact ⟨rfl, Manager.dispatch_pc (by simp) (by simp) (by simp) (by simp) (by simp)⟩
    | loopCheck => exact ⟨rfl, Manager.loopCheck_pc (by simp) (by simp) (by simp)⟩
    | @waitNone k | @stopKill k | @stopIdle k =>
      exact ⟨rfl, by cases k <;> exact fun _ hpc => by cases hpc⟩
    | @sent m k => exact ⟨rfl, by cases k <;> exact fun _ hpc => by cases hpc⟩
    | _ => exact ⟨rfl, fun _ hpc => by cases hpc⟩

end Proc

/-! ### The session -/

/-- `exec` has not returned. -/
def SruncPc.calling : SruncPc → Bool
  | .request | .poll | .ack => true
  | _ => false

namespace Session

variable {E : Env} {call : Call} {s s' : Session}

/-- The messages that the client has read: all that the manager has written but for those that
are still in flight. -/
def heard (s : Session) : List Message :=
  s.proc.hist.sent.take (s.proc.hist.sent.length - s.toClient.length)

/-- The heartbeats among them. -/
def heardBeats (s : Session) : ℕ := (s.heard.filter (·.method = .syn)).length

theorem heard_eq {pre ms : List Message} (hsent : s.proc.hist.sent = pre ++ ms)
    (hms : InFlight E ms s.toClient) : s.heard = pre := by
  rw [heard, hsent, ← hms.length_eq, List.length_append, Nat.add_sub_cancel, List.take_left]

theorem heardBeats_le (s : Session) : s.heardBeats ≤ s.proc.beats :=
  ((List.take_sublist _ _).filter _).length_le

/-- How many messages the client has sent: its request, and an ACK for each heartbeat that it
has read, but for the one in hand. -/
def sentBound (s : Session) : ℕ := s.heardBeats + if s.client = .request then 0 else 1

/-- How many there are of them in flight and at the manager, with that one. -/
def sentCount (s : Session) : ℕ :=
  s.proc.hist.received.length + s.toManager.length + if s.client = .ack then 1 else 0

/-- The balance of a session. While the client is in `exec` it has sent exactly what it may, one
message for each that it has read and the request (`level`); after that it may have sent less
(`acks`). -/
structure Paced (E : Env) (call : Call) (s : Session) : Prop where
  agreed : Agreed E call s
  due : Proc.Due E call s.proc
  opened : s.client.calling = true → s.closed = false
  connected : s.closed = false → s.proc.mgr.pc.ending = false →
    s.proc.mgr.connection ≠ -1 ∧ ∀ evs, s.proc.mgr.pc ≠ .disconnect evs
  /-- `exec` goes on with heartbeats only. -/
  heard : s.client.calling = true → ∀ m ∈ s.heard, m.method = .syn
  acks : s.proc.mgr.pc.ending = false → s.sentCount ≤ s.sentBound
  level : s.client.calling = true → s.proc.mgr.pc.ending = false → s.sentCount = s.sentBound

theorem Paced.start (fd : ℕ) : Paced E call (start fd) where
  agreed := .start fd
  due := .start fd
  opened _ := rfl
  connected _ _ := ⟨by simp [Session.start, Proc.start], by simp [Session.start, Proc.start]⟩
  heard _ m hm := by simp [Session.heard, Session.start, Proc.start] at hm
  acks _ := Nat.le_refl _
  level _ _ := rfl

/-- An ACK only comes while it is waited for. -/
theorem Paced.isSyn (h : Paced E call s) (hend : s.proc.mgr.pc.ending = false)
    (hne : s.proc.hist.received ≠ []) (hup : s.toManager ≠ []) : s.proc.mgr.isSyn = true := by
  have hacks := h.acks hend
  have hbeats := h.due.beats hend
  have hle := heardBeats_le s
  have hpos := List.length_pos_of_ne_nil hne
  have hpos' := List.length_pos_of_ne_nil hup
  have htail := List.length_tail (l := s.proc.hist.received)
  -- the client has not sent more than it may, so what is on the way is the ACK
  have hbound : s.sentBound ≤ s.heardBeats + 1 := by
    rw [sentBound]
    split <;> omega
  rw [sentCount] at hacks
  cases hsyn : s.proc.mgr.isSyn with
  | true => rfl
  | false =>
    rw [hsyn, Bool.toNat_false] at hbeats
    omega

/-- The client writes its request, or an ACK. -/
theorem Paced.write (hE : E.WritesBytes) (h : Paced E call s) {m : Message} (hm : 0 < m.fieldCount)
    (hagreed : Agreed E call (s.write E m)) (hc : s.client = .request ∨ s.client = .ack) :
    Paced E call (s.write E m) := by
  have hcalling : s.client.calling = true := by rcases hc with hc | hc <;> rw [hc] <;> rfl
  -- one message more, or the ACK is in hand no longer
  have hlevel : s.proc.mgr.pc.ending = false →
      s.proc.hist.received.length + (s.toManager.length + 1) = s.heardBeats + 1 := fun he => by
    have hlevel := h.level hcalling he
    simp only [sentCount, sentBound] at hlevel
    rcases hc with hc | hc <;> simp [hc] at hlevel <;> omega
  unfold Session.write at hagreed ⊢
  split at hagreed
  · refine ⟨hagreed, h.due, (fun hno => by cases hno), h.connected, (fun hno => by cases hno),
      fun he => ?_, (fun hno => by cases hno)⟩
    have := hlevel he
    show s.proc.hist.received.length + s.toManager.length + 0 ≤ s.heardBeats + 1
    omega
  · next b hb =>
    have hlen : (s.toManager ++ if b = [] then [] else [b]).length = s.toManager.length + 1 := by
      rw [if_neg (hE hb hm), List.length_append, List.length_singleton]
    have hsent : s.proc.mgr.pc.ending = false →
        s.proc.hist.received.length + (s.toManager ++ if b = [] then [] else [b]).length =
          s.heardBeats + 1 := fun he => by
      rw [hlen]
      exact hlevel he
    exact ⟨hagreed, h.due, fun _ => h.opened hcalling, h.connected, fun _ => h.heard hcalling,
      fun he => (hsent he).le, fun _ he => hsent he⟩

/-- The client reads a message: a heartbeat leads to an ACK, and everything else to the end of
`exec`. -/
theorem Paced.receive (hE : E.ParsesBack) (h : Paced E call s) {b : Bytes} {bs : List Bytes}
    {pc : SruncPc} {closed : Bool} (hc : s.client = .poll) (hb : s.toClient = b :: bs)
    (hpc : pc = SruncPc.received (recvMessage E b)) (hclosed : pc.calling = true → closed = false)
    (hagreed : Agreed E call { s with client := pc, closed := closed, toClient := bs }) :
    Paced E call { s with client := pc, closed := closed, toClient := bs } := by
  have hcalling : s.client.calling = true := by rw [hc]; rfl
  -- the message that is read is the first of those in flight
  obtain ⟨pre, ms, hsent, hms⟩ := h.agreed.down
  have hheard : s.heard = pre := heard_eq hsent hms
  rw [hb] at hms
  obtain ⟨m, ms, rfl, hms, hparse⟩ := hms.parse hE
  have hheard' : ({ s with client := pc, closed := closed, toClient := bs } : Session).heard =
      pre ++ [m] :=
    heard_eq (by rw [hsent, List.append_assoc]; rfl) hms
  have hbeats : ({ s with client := pc, closed := closed, toClient := bs } : Session).heardBeats =
      s.heardBeats + if m.method = .syn then 1 else 0 := by
    rw [heardBeats, heardBeats, hheard', hheard, List.filter_append, List.length_append]
    by_cases hm : m.method = .syn <;> simp [hm]
  -- a SYN leads to the ACK; everything else, also what does not parse, ends `exec`
  have hcases : (pc = .ack ∧ m.method = .syn) ∨
      (pc ≠ .request ∧ pc ≠ .ack ∧ pc.calling = false) := by
    cases hrecv : recvMessage E b with
    | none =>
      rw [hrecv] at hpc
      rw [hpc]
      exact Or.inr ⟨by simp [SruncPc.received], by simp [SruncPc.received], rfl⟩
    | some m' =>
      rw [hrecv, hparse m' (parse_of_recvMessage hrecv), SruncPc.received] at hpc
      split at hpc
      · next hsyn => exact Or.inl ⟨hpc, hsyn⟩
      · exact Or.inr ⟨by simp [hpc], by simp [hpc], by rw [hpc]; rfl⟩
  have hlevel : s.proc.mgr.pc.ending = false →
      s.proc.hist.received.length + s.toManager.length = s.heardBeats + 1 := fun he => by
    have := h.level hcalling he
    simpa [sentCount, sentBound, hc] using this
  have hconnected : closed = false → s.proc.mgr.pc.ending = false →
      s.proc.mgr.connection ≠ -1 ∧ ∀ evs, s.proc.mgr.pc ≠ .disconnect evs :=
    fun _ => h.connected (h.opened hcalling)
  rcases hcases with ⟨rfl, hsyn⟩ | ⟨hrequest, hack, hdone⟩
  -- the ACK in hand is counted on both sides
  · have hacks : s.proc.mgr.pc.ending = false →
        s.proc.hist.received.length + s.toManager.length + 1 = s.heardBeats + 1 + 1 := fun he => by
      rw [hlevel he]
    rw [if_pos hsyn] at hbeats
    refine ⟨hagreed, h.due, hclosed, hconnected, fun _ m' hm' => ?_, fun he => ?_, fun _ he => ?_⟩
    · rw [hheard', List.mem_append, List.mem_singleton] at hm'
      rcases hm' with hm' | rfl
      · exact h.heard hcalling m' (hheard ▸ hm')
      · exact hsyn
    · rw [sentBound, hbeats]
      exact (hacks he).le
    · rw [sentBound, hbeats]
      exact hacks he
  -- `exec` ends, and nothing more is to be sent
  · refine ⟨hagreed, h.due, hclosed, hconnected, ?_, fun he => ?_, ?_⟩
    · rw [hdone]
      exact fun hno => by cases hno
    · rw [sentCount, sentBound, hbeats, if_neg hrequest, if_neg hack]
      have := hlevel he
      dsimp only
      omega
    · rw [hdone]
      exact fun hno => by cases hno

/-- A step of the manager that takes messages of the client from the connection only to
receive them. -/
theorem Paced.frame (h : Paced E call s) {p : Proc} {up down : List Bytes}
    (hagreed : Agreed E call { s with proc := p, toManager := up, toClient := down })
    (hdue : Proc.Due E call p)
    (hend : p.mgr.pc.ending = false → s.proc.mgr.pc.ending = false)
    (hconnected : s.closed = false → p.mgr.pc.ending = false →
      p.mgr.connection ≠ -1 ∧ ∀ evs, p.mgr.pc ≠ .disconnect evs)
    (hheard : ({ s with proc := p, toManager := up, toClient := down } : Session).heard = s.heard)
    (hcount : p.mgr.pc.ending = false → p.hist.received.length + up.length =
      s.proc.hist.received.length + s.toManager.length) :
    Paced E call { s with proc := p, toManager := up, toClient := down } := by
  -- the client's side of the balance, and the connection's
  have hbound : ({ s with proc := p, toManager := up, toClient := down } : Session).sentBound =
      s.sentBound := by rw [sentBound, heardBeats, hheard, sentBound, heardBeats]
  have hsent : p.mgr.pc.ending = false →
      ({ s with proc := p, toManager := up, toClient := down } : Session).sentCount =
        s.sentCount := fun he => by rw [sentCount, hcount he, sentCount]
  refine ⟨hagreed, hdue, h.opened, hconnected, fun hc => ?_, fun he => ?_, fun hc he => ?_⟩
  · rw [hheard]
    exact h.heard hc
  · rw [hbound, hsent he]
    exact h.acks (hend he)
  · rw [hbound, hsent he]
    exact h.level hc (hend he)

/-- The manager takes a step. -/
theorem Paced.server (h : Paced E call s) {ev : Event} {p : Proc} (hadm : s.admits ev = true)
    (hstep : s.proc.step E ev = some p)
    (hagreed : Agreed E call
      { s with proc := p, toManager := s.toManagerAfter ev, toClient := s.toClientAfter ev }) :
    Paced E call
      { s with proc := p, toManager := s.toManagerAfter ev, toClient := s.toClientAfter ev } := by
  have hrel := Proc.step_cases hstep
  have hend : p.mgr.pc.ending = false → s.proc.mgr.pc.ending = false := fun he =>
    Bool.eq_false_iff.mpr fun he' => by simp [hrel.ending h.due.served.base.core he'] at he
  have hconnected : s.closed = false → p.mgr.pc.ending = false →
      p.mgr.connection ≠ -1 ∧ ∀ evs, p.mgr.pc ≠ .disconnect evs := fun hopen he => by
    -- the manager does not close the connection by itself
    obtain ⟨hconn, hdis⟩ := h.connected hopen (hend he)
    obtain ⟨hsame, hclose⟩ := hrel.connected he hdis
    refine ⟨hsame ▸ hconn, fun evs hpc => ?_⟩
    -- there is no end of file on an open connection
    obtain ⟨rfl, evs, hpc'⟩ := hclose evs hpc
    simp [admits, hpc', hopen, serverOpen, hconn] at hadm
  -- the manager says nothing, receives a message, or has written one
  cases hrel.talk with
  | silent hsent hrec hread hwrite =>
    have hto : s.toManagerAfter ev = s.toManager := by
      unfold toManagerAfter
      split
      · obtain ⟨data, evs, hpc⟩ := recv_of_admits hadm
        obtain rfl := hread rfl data evs hpc
        rw [hpc]
        rfl
      · rfl
    have hfrom : s.toClientAfter ev = s.toClient := by
      unfold toClientAfter
      split
      · next data n =>
        obtain rfl := length_of_admits hadm
        exact absurd rfl (hwrite data)
      · rfl
    have hdue := h.due.silent hagreed.served hrel hsent hrec hwrite
    rw [hto, hfrom] at hagreed ⊢
    exact h.frame hagreed hdue hend hconnected (by rw [Session.heard, hsent, Session.heard])
      fun _ => by rw [hrec]
  | @read data evs hpc hdata hev hsent hrec hnext =>
    subst hev
    -- what it reads is at the head of the connection
    have hhead : s.toManager.head? = some data := by
      cases data with
      | nil => exact absurd rfl hdata
      | cons b bs => simpa [admits, hpc] using hadm
    obtain ⟨rest, hto⟩ := List.head?_eq_some_iff.mp hhead
    -- it is taken from there when it is whole
    have hafter : s.toManagerAfter (.mgr (.read none)) = rest := by
      cases data with
      | nil => exact absurd rfl hdata
      | cons b bs => simp [toManagerAfter, hpc, hto]
    have hdue := h.due.read hagreed.served hpc hdata hstep hsent hrec hagreed.received fun hne =>
      h.isSyn (by rw [hpc]; rfl) hne (by rw [hto]; exact List.cons_ne_nil _ _)
    refine h.frame hagreed hdue hend hconnected ?_ fun he => ?_
    · rw [Session.heard, hsent, Session.heard]
      rfl
    · obtain ⟨m, hm⟩ := Option.isSome_iff_exists.mp (hnext.resolve_left (by simp [he]))
      rw [hrec, hm, hafter, hto, List.length_append, List.length_cons]
      exact Nat.add_right_comm _ 1 _
  | @wrote m k data hpc hev hdata hsent hrec =>
    subst hev
    have hdue := h.due.wrote hagreed.served hpc hstep hsent hrec
    -- the message goes to the end of those in flight
    obtain ⟨pre, ms, hsent', hms⟩ := h.agreed.down
    refine h.frame hagreed hdue hend hconnected ?_ fun _ => by rw [hrec]; rfl
    rw [heard_eq hsent' hms]
    exact heard_eq (by rw [hsent, hsent', List.append_assoc]) (hms.concat hdata)

theorem Paced.step (hne : E.WritesBytes) (hE : E.ParsesBack) (h : Paced E call s)
    {ev : SessionEvent} (hstep : s.step E call ev = some s') : Paced E call s' := by
  have hagreed := h.agreed.step hne hE hstep
  cases ev with
  | send =>
    simp only [Session.step] at hstep
    split at hstep
    · next hc =>
      cases hstep
      exact h.write hne (call_fieldCount call) hagreed (Or.inl hc)
    · next hc =>
      split at hstep
      · cases hstep
        exact h.write hne (by decide) hagreed (Or.inr hc)
      · cases hstep
    · cases hstep
  | receive =>
    simp only [Session.step] at hstep
    split at hstep
    · next b bs hc hb =>
      cases hstep
      refine h.receive hE hc hb rfl (fun hcalling => ?_) hagreed
      split
      · next heq =>
        rw [heq] at hcalling
        cases hcalling
      · rfl
    · cases hstep
  | fail =>
    simp only [Session.step] at hstep
    split at hstep <;> cases hstep
    all_goals
      refine ⟨hagreed, h.due, (fun hno => by cases hno), h.connected, (fun hno => by cases hno),
        -- a client that stops sends nothing more; what it has in hand is dropped
        fun he => ?_, (fun hno => by cases hno)⟩
      have hacks := h.acks he
      show s.proc.hist.received.length + s.toManager.length + 0 ≤ s.heardBeats + 1
      rw [sentCount, sentBound] at hacks
      split_ifs at hacks <;> omega
  | close =>
    simp only [Session.step] at hstep
    split at hstep
    · next hc =>
      cases hstep
      refine ⟨hagreed, h.due, fun hno => ?_, (fun hno => by cases hno), h.heard, h.acks, h.level⟩
      rw [show s.client = .failed from hc] at hno
      cases hno
    · cases hstep
  | server ev =>
    simp only [Session.step] at hstep
    split at hstep
    · next hadm =>
      obtain ⟨p, hp, rfl⟩ := Option.map_eq_some_iff.mp hstep
      exact h.server hadm hp hagreed
    · cases hstep

theorem Paced.of_reachable {fd : ℕ} (hne : E.WritesBytes) (hE : E.ParsesBack)
    (h : Machine.Reachable (Session.step E call) (Session.start fd) s) : Paced E call s :=
  h.invariant (fun _ _ _ hs hstep => hs.step hne hE hstep) (.start fd)

/-- In which states both wait. The client has read everything that has been written, which is
heartbeats only, and the manager has read everything that has been sent, so it is the command
that it owes an answer for. -/
theorem Paced.waits (hpaced : Paced E call s) (hclient : s.client = .poll)
    (hmanager : s.proc.mgr.pc = .epollWait) (hup : s.toManager = []) (hdown : s.toClient = []) :
    (∃ r, call = .run r) ∧ s.proc.mgr.childStatus ≠ .noProc ∧
      s.proc.mgr.request.backend = false ∧ s.proc.mgr.execOver = false ∧
      s.proc.answers = [] ∧ s.proc.mgr.isSyn = false := by
  have hdue := hpaced.due
  have hcalling : s.client.calling = true := by rw [hclient]; rfl
  have hend : s.proc.mgr.pc.ending = false := by rw [hmanager]; rfl
  -- the client has read everything, and only heartbeats
  have hheard : s.heard = s.proc.hist.sent := by
    rw [Session.heard, hdown, List.length_nil, Nat.sub_zero, List.take_length]
  have hsyn : ∀ m ∈ s.proc.hist.sent, m.method = .syn := hheard ▸ hpaced.heard hcalling
  have hanswers : s.proc.answers = [] :=
    List.filter_eq_nil_iff.mpr fun m hm => by simp [hsyn m hm]
  have hbeats : s.heardBeats = s.proc.beats := by rw [heardBeats, hheard, Proc.beats]
  -- the manager has received everything: the request, and an ACK for each heartbeat
  have hreceived : s.proc.hist.received.length = s.proc.beats + 1 := by
    have hlevel := hpaced.level hcalling hend
    simpa [sentCount, sentBound, hclient, hup, hbeats] using hlevel
  have hne : s.proc.hist.received ≠ [] := fun hnil => by simp [hnil] at hreceived
  have hflag : s.proc.mgr.resultSendback = false :=
    Bool.eq_false_iff.mpr fun hf => hdue.flag hf hanswers
  have hrun : s.proc.mgr.childStatus ≠ .noProc := by
    rcases hdue.owed hne hend with hf | hrun | hob
    · rw [hflag] at hf
      cases hf
    · exact hrun
    · rw [hmanager] at hob
      cases hob
  refine ⟨?_, hrun, ?_, ?_, hanswers, ?_⟩
  -- only an EXE starts a command
  · have hexe := hdue.served.started hrun
    cases call with
    | run r => exact ⟨r, rfl⟩
    | list | stop => cases hexe
  · refine Bool.eq_false_iff.mpr fun hb => ?_
    -- a backend command would have been answered with its set-up
    rcases hdue.backend hrun hb hend with hset | hf
    · rw [hmanager] at hset
      cases hset
    · rw [hflag] at hf
      cases hf
  · refine Bool.eq_false_iff.mpr fun hover => ?_
    -- a command that is over would have been answered at the check of the loop
    have hconn := (hpaced.connected (hpaced.opened hcalling) hend).1
    have hf := hdue.served.base.settled (by rw [hmanager]; rfl) hover hconn
    rw [hflag] at hf
    cases hf
  -- a SYN without its ACK would be in flight
  · have hlevel := hdue.beats hend
    rw [List.length_tail, hreceived, hmanager] at hlevel
    cases hsyn : s.proc.mgr.isSyn with
    | false => rfl
    | true =>
      rw [hsyn] at hlevel
      simp [Pc.beating] at hlevel

/-- **They wait for a command.** When the client polls, the manager is in `epoll_wait` and
nothing is in flight between them, then the call is a `run`, its command has been cloned, is
none for the background and is not over with its outputs; nothing has been answered, and there
is no heartbeat without its ACK. So `list` and `stop` never get to such a state, and neither
does a `run` that is refused. -/
theorem waits_for_command {fd : ℕ} (hne : E.WritesBytes) (hE : E.ParsesBack)
    (h : Machine.Reachable (Session.step E call) (Session.start fd) s)
    (hclient : s.client = .poll) (hmanager : s.proc.mgr.pc = .epollWait)
    (hup : s.toManager = []) (hdown : s.toClient = []) :
    (∃ r, call = .run r) ∧ s.proc.mgr.childStatus ≠ .noProc ∧
      s.proc.mgr.request.backend = false ∧ s.proc.mgr.execOver = false ∧
      s.proc.answers = [] ∧ s.proc.mgr.isSyn = false :=
  (Paced.of_reachable hne hE h).waits hclient hmanager hup hdown

/-- A command runs, and a heartbeat has been answered. -/
def waitingSession : List SessionEvent :=
  .send :: (Proc.lsLabels ++ Label.epollWait .timeout :: .write [8, 1] (.wrote 2) ::
      Proc.loopLabels).map (fun l => .server (.mgr l)) ++
    [.receive, .send] ++
    (Proc.receiveLabels Proc.ackData ++ Proc.loopLabels).map (fun l => .server (.mgr l))

theorem waits_for_command_ls :
    ∃ s, Machine.exec (Session.step Proto3.env (.run { args := ["/bin/ls"] }))
        (Session.start 5) waitingSession = some s ∧
      s.client = .poll ∧ s.proc.mgr.childStatus ≠ .noProc ∧ s.proc.mgr.execOver = false ∧
      s.proc.mgr.isSyn = false := by
  obtain ⟨s, hrun, hs⟩ := Machine.exec_of_any
    (show (Machine.exec (Session.step Proto3.env (.run { args := ["/bin/ls"] }))
      (Session.start 5) waitingSession).any
      (fun s => s.client = .poll ∧ s.proc.mgr.pc = .epollWait ∧ s.toManager = [] ∧
        s.toClient = []) = true by decide +kernel)
  obtain ⟨hclient, hmanager, hup, hdown⟩ := of_decide_eq_true hs
  obtain ⟨-, hstatus, -, hover, -, hsyn⟩ :=
    waits_for_command Proto3.env_writesBytes Proto3.env_parsesBack ⟨_, hrun⟩ hclient hmanager hup
      hdown
  exact ⟨s, hrun, hclient, hstatus, hover, hsyn⟩

end Session
end Srun
