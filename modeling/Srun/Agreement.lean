import Srun.Session

/-!
# Agreement of client and manager

One call of the client library leads to at most one answer: a message other than a
heartbeat. The reasons are the client's, which sends one request and otherwise ACKs
only, and the manager's, which serves a request only while `result_sendback` is
not set and sets it with the answer.

`Served` is the invariant of a manager that receives the messages of one call
(`Requests`). Whatever is served (`Pc.serving`) is that request, and the flag is
not set meanwhile. `Agreed` adds the messages in flight: what has been written and
not been read is the encoding of the last messages sent, in order.
-/

namespace Srun

/-- What is being answered at a point of the manager, as the method of the answer. -/
def Pc.serving : Pc → Option Method
  | .handle _ _ _ => some .exe
  | .list _ _ _ => some .list
  | .stop _ _ _ => some .stop
  | .send _ .heartbeat => none
  | .send m _ => some m.method
  | _ => none

/-- The points at which messages are read and written. -/
def Pc.talking : Pc → Bool
  | .send _ _ | .recv _ _ => true
  | _ => false

theorem Pc.talking_of_unlockThrow {pc : Pc} (h : pc.unlockThrow = true) : pc.talking = false := by
  cases pc <;> first | rfl | cases h

/-- The messages of one call: its request, and then ACKs. -/
def Requests (call : Call) (ms : List Message) : Prop :=
  ms = [] ∨ ∃ acks, ms = call.message :: acks ∧ ∀ m ∈ acks, m.method = .ack

theorem Requests.concat {call : Call} {ms : List Message} {m : Message}
    (h : Requests call (ms ++ [m])) :
    (ms = [] ∧ m = call.message) ∨ (ms ≠ [] ∧ m.method = .ack) := by
  rcases h with h | ⟨acks, h, hacks⟩
  · simp at h
  · cases ms with
    | nil => exact Or.inl ⟨rfl, (List.cons.inj h).1⟩
    | cons m' ms =>
      obtain ⟨-, rfl⟩ := List.cons.inj h
      exact Or.inr ⟨by simp, hacks m (by simp)⟩

theorem Requests.left {call : Call} {ms ns : List Message} (h : Requests call (ms ++ ns)) :
    Requests call ms := by
  rcases h with h | ⟨acks, h, hacks⟩
  · exact Or.inl (List.append_eq_nil_iff.mp h).1
  · cases ms with
    | nil => exact Or.inl rfl
    | cons m ms =>
      obtain ⟨rfl, rfl⟩ := List.cons.inj h
      exact Or.inr ⟨ms, rfl, fun m hm => hacks m (List.mem_append_left _ hm)⟩

theorem Call.message_method (call : Call) :
    call.message.method = .exe ∨ call.message.method = .list ∨ call.message.method = .stop := by
  cases call <;> simp [Call.message]

theorem Call.isResult (call : Call) {m : Message} (h : m.method = call.message.method) :
    m.isResult = true := by
  rcases call.message_method with hm | hm | hm <;> simp [Message.isResult, h, hm]

/-- What the manager is about to write, by the caller of `send_message`. -/
structure Manager.Voice (s : Manager) : Prop where
  heartbeat : ∀ m, s.pc = .send m .heartbeat → m.method = .syn
  result : ∀ m, s.pc = .send m .result → s.execOver = true
  badArgs : ∀ m evs, s.pc = .send m (.badArgs evs) → m.getResponse.stat = .badargs
  reply : ∀ m evs, s.pc = .send m (.reply evs) → m.method ≠ .exe

theorem Manager.Voice.of_silent {s : Manager} (h : ∀ m k, s.pc ≠ .send m k) : s.Voice :=
  ⟨fun m hm => absurd hm (h m _), fun m hm => absurd hm (h m _),
    fun m _ hm => absurd hm (h m _), fun m _ hm => absurd hm (h m _)⟩

namespace Proc

variable {E : Env} {call : Call} {p p' : Proc} {ev : Event} {l : Label}

/-- The messages sent that are no heartbeats. -/
def answers (p : Proc) : List Message := p.hist.sent.filter (·.method ≠ .syn)

theorem histAfter_messages (h : p.mgr.pc.talking = false) :
    (p.histAfter E l).sent = p.hist.sent ∧ (p.histAfter E l).received = p.hist.received := by
  unfold histAfter
  split <;> first
    | exact ⟨rfl, rfl⟩
    | (split <;> exact ⟨rfl, rfl⟩)
    | simp_all [Pc.talking]

/-- The invariant of a manager that serves one call. -/
structure Served (E : Env) (call : Call) (p : Proc) : Prop where
  base : Base p
  voice : p.mgr.Voice
  flag : p.mgr.resultSendback = false → p.answers = []
  one : p.answers.length ≤ 1
  method : ∀ m ∈ p.answers, m.method = call.message.method
  /-- Before the request has come. -/
  fresh : p.hist.received = [] → p.mgr.resultSendback = false ∧ p.mgr.childStatus = .noProc
  serving : ∀ me, p.mgr.pc.serving = some me →
    p.mgr.resultSendback = false ∧ me = call.message.method ∧ p.hist.received ≠ []
  started : p.mgr.childStatus ≠ .noProc → call.message.method = .exe
  /-- The request is the client's, completed by the configuration. -/
  backend : ∀ r r', call = .run r → E.loadRequest r = some r' → p.hist.received ≠ [] →
    p.mgr.pc.ending = false → p.mgr.request.backend = r'.backend

theorem Served.start (fd : ℕ) : Served E call (start fd) where
  base := Base.start fd
  voice := .of_silent fun _ _ => by simp [Proc.start]
  flag := fun _ => rfl
  one := Nat.zero_le _
  method := fun _ h => by simp [answers, Proc.start] at h
  fresh := fun _ => ⟨rfl, rfl⟩
  serving := fun _ h => by simp [Proc.start, Pc.serving] at h
  started := fun h => absurd rfl h
  backend := fun _ _ _ _ h => absurd rfl h

/-- A step that neither reads nor writes a message. -/
theorem Served.silent (h : Served E call p) (hbase : Base p') (hvoice : p'.mgr.Voice)
    (hsent : p'.hist.sent = p.hist.sent ∧ p'.hist.received = p.hist.received)
    (hflag : p'.mgr.resultSendback = p.mgr.resultSendback)
    (hb : p'.mgr.request.backend = p.mgr.request.backend)
    (hend : p.mgr.pc.ending = true → p'.mgr.pc.ending = true)
    (hst : p'.mgr.childStatus ≠ .noProc → p.mgr.childStatus ≠ .noProc ∨
      (call.message.method = .exe ∧ p.hist.received ≠ []))
    (hserve : ∀ me, p'.mgr.pc.serving = some me →
      p.mgr.resultSendback = false ∧ me = call.message.method ∧ p.hist.received ≠ []) :
    Served E call p' := by
  obtain ⟨hsent, hrec⟩ := hsent
  have hans : p'.answers = p.answers := by rw [answers, hsent, answers]
  constructor <;> simp only [hans, hrec, hflag, hb] at *
  case base => exact hbase
  case voice => exact hvoice
  case flag => exact h.flag
  case one => exact h.one
  case method => exact h.method
  case fresh =>
    intro hnil
    refine ⟨(h.fresh hnil).1, ?_⟩
    by_contra hst'
    rcases hst hst' with h0 | ⟨-, hne⟩
    · exact h0 (h.fresh hnil).2
    · exact hne hnil
  case serving => exact hserve
  case started => exact fun hst' => (hst hst').elim h.started And.left
  case backend =>
    intro r r' hr hr' hne he
    exact h.backend r r' hr hr' hne (Bool.eq_false_iff.mpr fun he' => by simp [hend he'] at he)

/-- **Frame rule.** A step that neither reads nor writes a message, nor changes what
is being served. -/
theorem Served.frame (h : Served E call p) (hbase : Base p') (hvoice : p'.mgr.Voice)
    (hsent : p'.hist.sent = p.hist.sent ∧ p'.hist.received = p.hist.received)
    (hflag : p'.mgr.resultSendback = p.mgr.resultSendback)
    (hst : p'.mgr.childStatus = .noProc ↔ p.mgr.childStatus = .noProc)
    (hb : p'.mgr.request.backend = p.mgr.request.backend)
    (hend : p.mgr.pc.ending = true → p'.mgr.pc.ending = true)
    (hserve : p'.mgr.pc.serving = none ∨ p'.mgr.pc.serving = p.mgr.pc.serving) :
    Served E call p' := by
  refine h.silent hbase hvoice hsent hflag hb hend (fun hne => Or.inl fun h0 => hne (hst.mpr h0))
    fun me hme => ?_
  rcases hserve with hnone | heq
  · simp [hnone] at hme
  · exact h.serving me (heq ▸ hme)

/-- The effect on a manager that has just received the request, or an ACK. -/
theorem Served.received (h : Served E call p) {data : Bytes} {m : Message} {evs : List Int}
    {hi : History} (hpc : p.mgr.pc = .recv data evs)
    (hbase : Base
      { mgr := Manager.received E p.mgr data m evs, children := p.children, hist := hi })
    (hsent : hi.sent = p.hist.sent) (hrec : hi.received = p.hist.received ++ [m])
    (hreq : Requests call hi.received) :
    Served E call
      { mgr := Manager.received E p.mgr data m evs, children := p.children, hist := hi } := by
  have hans : answers { mgr := Manager.received E p.mgr data m evs, children := p.children,
                        hist := hi } = p.answers := by rw [answers, hsent, answers]
  have hflag : (Manager.received E p.mgr data m evs).resultSendback = p.mgr.resultSendback :=
    Manager.received_field Manager.resultSendback fun _ _ _ => rfl
  have hst : (Manager.received E p.mgr data m evs).childStatus = p.mgr.childStatus :=
    Manager.received_field Manager.childStatus fun _ _ _ => rfl
  have hne : hi.received ≠ [] := by simp [hrec]
  rw [hrec] at hreq
  -- what is served now, and the request of the manager
  suffices hs : (∀ m' k, (Manager.received E p.mgr data m evs).pc ≠ .send m' k) ∧
      (∀ me, (Manager.received E p.mgr data m evs).pc.serving = some me →
        p.mgr.resultSendback = false ∧ me = call.message.method) ∧
      ∀ r r', call = .run r → E.loadRequest r = some r' →
        (Manager.received E p.mgr data m evs).request.backend = r'.backend by
    obtain ⟨hsilent, hserve, hback⟩ := hs
    constructor <;> try simp only [hans, hflag, hst]
    case base => exact hbase
    case voice => exact .of_silent hsilent
    case flag => exact h.flag
    case one => exact h.one
    case method => exact h.method
    case fresh => exact fun hnil => absurd hnil hne
    case serving => exact fun me hme => ⟨(hserve me hme).1, (hserve me hme).2, hne⟩
    case started => exact h.started
    case backend => exact fun r r' hr hr' _ _ => hback r r' hr hr'
  rcases hreq.concat with ⟨hnil, rfl⟩ | ⟨hne', hack⟩
  · -- the request
    obtain ⟨hf, -⟩ := h.fresh hnil
    cases call with
    | run r =>
      -- an EXE is handled with the request that `loadRequest` makes of the one sent
      simp only [Manager.received, Call.message, Message.getRequest, Option.getD_some]
      cases hr : E.loadRequest r with
      | none =>
        refine ⟨by simp, by simp [Pc.serving], ?_⟩
        rintro _ r' ⟨⟩ hr'
        simp [hr] at hr'
      | some r'' =>
        refine ⟨by simp, by simp [Pc.serving, hf], ?_⟩
        rintro _ r' ⟨⟩ hr'
        rw [Option.some.inj (hr.symm.trans hr')]
    -- LIST and STOP are answered from a point that serves them
    | list => simp [Manager.received, Call.message, Pc.serving, hf]
    | stop pids => simp [Manager.received, Call.message, Pc.serving, hf]
  · -- an ACK
    have heq : Manager.received E p.mgr data m evs =
        { p.mgr with isSyn := false, pc := .dispatch evs } := by simp [Manager.received, hack]
    rw [heq]
    refine ⟨fun _ _ => (by intro h; cases h), fun _ => (by intro h; cases h), fun r r' hr hr' => ?_⟩
    exact h.backend r r' hr hr' hne' (by rw [hpc]; rfl)

theorem histAfter_sent {m : Message} {k : SendRet} {data : Bytes} (hpc : p.mgr.pc = .send m k) :
    (p.histAfter E (.write data (.wrote data.length))).sent = p.hist.sent ++ [m] ∧
      (p.histAfter E (.write data (.wrote data.length))).received = p.hist.received := by
  -- the message is added whatever it was written for
  simp only [histAfter, hpc, if_true]
  cases k <;> exact ⟨rfl, rfl⟩

/-- The effect of a message that has been written. -/
theorem Served.sent (h : Served E call p) {m : Message} {k : SendRet} {hi : History}
    (hpc : p.mgr.pc = .send m k)
    (hbase : Base { mgr := { p.mgr with resultSendback := p.mgr.resultSendback || m.isResult }.goto
                      k.pc
                    children := p.children, hist := hi })
    (hsent : hi.sent = p.hist.sent ++ [m] ∧ hi.received = p.hist.received) :
    Served E call
      { mgr := { p.mgr with resultSendback := p.mgr.resultSendback || m.isResult }.goto k.pc
        children := p.children, hist := hi } := by
  obtain ⟨hsent, hrec⟩ := hsent
  obtain ⟨hsilent, hserve⟩ : (∀ m' k', k.pc ≠ .send m' k') ∧ k.pc.serving = none := by
    cases k <;> exact ⟨fun _ _ => (by intro h; cases h), rfl⟩
  have hans : ∀ m', answers { mgr := m', children := p.children, hist := hi } =
      p.answers ++ if m.method = .syn then [] else [m] := fun _ => by
    rw [answers, hsent, List.filter_append, answers]
    by_cases hm : m.method = .syn <;> simp [hm]
  have hback : ∀ r r', call = .run r → E.loadRequest r = some r' → hi.received ≠ [] →
      p.mgr.request.backend = r'.backend := fun r r' hr hr' hne =>
    h.backend r r' hr hr' (hrec ▸ hne) (by rw [hpc]; rfl)
  -- a point that serves no request sends heartbeats only
  by_cases hk : p.mgr.pc.serving = none
  · -- a heartbeat
    have hm : m.method = .syn := by
      cases k with
      | heartbeat => exact h.voice.heartbeat m hpc
      | _ => simp [hpc, Pc.serving] at hk
    have hres : m.isResult = false := by simp [Message.isResult, hm]
    have hsame : ∀ m', answers { mgr := m', children := p.children, hist := hi } = p.answers :=
      fun m' => by rw [hans, if_pos hm, List.append_nil]
    constructor
    case base => exact hbase
    case voice => exact .of_silent hsilent
    case flag => simpa only [hsame, hres, Bool.or_false, Manager.goto] using h.flag
    case one => simpa only [hsame] using h.one
    case method => simpa only [hsame] using h.method
    case fresh => simpa only [hrec, hres, Bool.or_false, Manager.goto] using h.fresh
    case serving =>
      intro me hme
      simp [hserve] at hme
    case started => exact h.started
    case backend => exact fun r r' hr hr' hne _ => hback r r' hr hr' (hrec ▸ hne)
  · -- the answer
    obtain ⟨me, hme⟩ := Option.ne_none_iff_exists'.mp hk
    obtain ⟨hflag, hmethod, hne⟩ := h.serving me hme
    have hm : m.method = call.message.method := by
      rw [← hmethod]
      cases k <;> simp_all [Pc.serving]
    have hres : m.isResult = true := call.isResult hm
    have hsyn : m.method ≠ .syn := fun hs => by simp [Message.isResult, hs] at hres
    constructor
    case base => exact hbase
    case voice => exact .of_silent hsilent
    case flag =>
      intro hf
      simp [hres] at hf
    case one => simp [hans, h.flag hflag, hsyn]
    case method => simp [hans, h.flag hflag, hm]
    case fresh => exact fun hnil => absurd (hrec ▸ hnil) hne
    case serving =>
      intro me hme
      simp [hserve] at hme
    case started => exact h.started
    case backend => exact fun r r' hr hr' hn _ => hback r r' hr hr' hn

theorem histAfter_throwing (h : l.throwing = true) :
    (p.histAfter E l).sent = p.hist.sent ∧
      ((p.histAfter E l).received = [] → p.hist.received = []) := by
  unfold histAfter
  split <;> first
    | exact ⟨rfl, id⟩
    | (split <;> first | exact ⟨rfl, id⟩ | exact ⟨rfl, fun h => (List.append_eq_nil_iff.mp h).1⟩)
    | (next => rw [if_neg (of_decide_eq_true h)]; exact ⟨rfl, id⟩)

/-- The effect of an exception. -/
theorem Served.throws (h : Served E call p) {hi : History}
    (hbase : Base { mgr := p.mgr.raise, children := p.children, hist := hi })
    (hsent : hi.sent = p.hist.sent ∧ (hi.received = [] → p.hist.received = [])) :
    Served E call { mgr := p.mgr.raise, children := p.children, hist := hi } := by
  obtain ⟨hsent, hrec⟩ := hsent
  have hans : answers { mgr := p.mgr.raise, children := p.children, hist := hi } = p.answers := by
    rw [answers, hsent, answers]
  constructor <;> try rw [hans]
  case base => exact hbase
  case voice => exact .of_silent fun _ _ => by simp
  case flag => exact h.flag
  case one => exact h.one
  case method => exact h.method
  case fresh => exact fun hnil => h.fresh (hrec hnil)
  case serving =>
    intro me hme
    simp [Pc.serving] at hme
  case started => exact h.started
  case backend =>
    intro _ _ _ _ _ he
    cases he

/-- A command is reaped: nothing is sent, and what runs does not go back to NO_PROC. -/
theorem Served.reaped (h : Served E call p) {st : WaitStatus} {k : WaitRet}
    {children : List (Int × Life)} {hi : History} (hpc : p.mgr.pc = .waitChild k)
    (hrun : p.mgr.childStatus = .procRunning)
    (hbase : Base { mgr := p.mgr.reaped st k, children := children, hist := hi })
    (hsent : hi.sent = p.hist.sent ∧ hi.received = p.hist.received) :
    Served E call { mgr := p.mgr.reaped st k, children := children, hist := hi } := by
  refine h.frame hbase (.of_silent (Manager.reaped_pc (by simp) (by simp) (by simp))) hsent
    (Manager.reaped_field Manager.resultSendback fun _ _ _ _ => rfl) ?_
    (Manager.reaped_field (fun s => s.request.backend) fun _ _ _ _ => rfl) ?_
    (Or.inl (Manager.reaped_pc rfl rfl rfl))
  · simp [hrun, reaped_childStatus]
  · rw [hpc]
    exact Manager.reaped_pc id id id

/-- The check of the main loop: where it sends the result, none has been sent. -/
theorem Served.loopCheck (h : Served E call p) {hi : History} (hpc : p.mgr.pc = .loopCheck)
    (hbase : Base { mgr := p.mgr.goto p.mgr.loopCheck, children := p.children, hist := hi })
    (hsent : hi.sent = p.hist.sent ∧ hi.received = p.hist.received) :
    Served E call { mgr := p.mgr.goto p.mgr.loopCheck, children := p.children, hist := hi } := by
  obtain ⟨hvoice, hserve⟩ : ({ p.mgr with pc := p.mgr.loopCheck } : Manager).Voice ∧
      ∀ me, p.mgr.loopCheck.serving = some me →
        p.mgr.resultSendback = false ∧ me = .exe ∧ p.mgr.childStatus ≠ .noProc := by
    refine Manager.loopCheck_pc ⟨.of_silent fun _ _ => by simp, by simp [Pc.serving]⟩
      (fun hover _ hflag => ?_) fun _ => ⟨.of_silent fun _ _ => by simp, by simp [Pc.serving]⟩
    -- the result goes out once: `result_sendback` was false
    refine ⟨⟨by simp, fun _ _ => hover, by simp, by simp⟩, fun me hme => ?_⟩
    refine ⟨hflag, (by cases hme; rfl), fun h0 => ?_⟩
    simp [Manager.execOver, h0] at hover
  refine h.silent hbase hvoice hsent rfl rfl (by rw [hpc]; intro h; cases h) Or.inl fun me hme => ?_
  obtain ⟨hflag, rfl, hst⟩ := hserve me hme
  exact ⟨hflag, (h.started hst).symm, fun hnil => hst (h.fresh hnil).2⟩

/-- The invariant is preserved as long as the messages are those of the call. -/
theorem Served.step (h : Served E call p) (hreq : Requests call p'.hist.received)
    (hstep : Proc.Step E p ev p') : Served E call p' := by
  have hbase := h.base.step hstep
  cases hstep with
  | exit =>
    exact ⟨hbase, h.voice, h.flag, h.one, h.method, h.fresh, h.serving, h.started, h.backend⟩
  | mgr hadm hm =>
    cases hm with
    -- the handler changes `process_stop`, which the invariant does not read
    | sigterm =>
      rw [histAfter_sigterm] at hbase ⊢
      exact ⟨hbase, ⟨h.voice.heartbeat, h.voice.result, h.voice.badArgs, h.voice.reply⟩, h.flag,
        h.one, h.method, h.fresh, h.serving, h.started, h.backend⟩
    -- an exception ends the serving of the request, and no other is read
    | unlockThrow hpc =>
      exact h.frame hbase (.of_silent fun _ _ => by simp)
        (histAfter_messages (Pc.talking_of_unlockThrow hpc)) rfl Iff.rfl rfl (fun _ => rfl)
        (Or.inl rfl)
    | throws hl =>
      obtain ⟨hpc, hl⟩ := Pc.throwing_of_throws hl
      rw [childrenAfter_of_throwing hl] at hbase ⊢
      exact h.throws hbase (histAfter_throwing hl)
    | received hpc hdata hparse =>
      refine h.received hpc hbase ?_ ?_ hreq <;> simp [histAfter, hpc, hdata, hparse]
    | sent hpc => exact h.sent hpc hbase (histAfter_sent hpc)
    | readChunk c hpc =>
      exact h.frame hbase (.of_silent fun _ _ => by simp) (by simp [histAfter, hpc]) rfl Iff.rfl rfl
        (by rw [hpc]; intro h; cases h) (Or.inl rfl)
    | readNothing hpc =>
      exact h.frame hbase (.of_silent fun _ _ => by simp) (by simp [histAfter, hpc]) rfl Iff.rfl rfl
        (by rw [hpc]; intro h; cases h) (Or.inl rfl)
    | sigpipe hpc =>
      exact h.frame hbase (.of_silent fun _ _ => by simp) (by simp [histAfter, hpc]) rfl Iff.rfl rfl
        (fun _ => rfl) (Or.inl rfl)
    | @waitNone k hpc =>
      exact h.frame hbase (.of_silent fun _ _ => by cases k <;> simp [WaitRet.pc])
        (histAfter_messages (by rw [hpc]; rfl)) rfl Iff.rfl rfl
        (by rw [hpc]; exact WaitRet.ending_pc)
        (Or.inl (by cases k <;> rfl))
    | waitOther hpc =>
      exact h.frame hbase h.voice (histAfter_messages (by rw [hpc]; rfl)) rfl Iff.rfl rfl id
        (Or.inr rfl)
    | reap hpc =>
      exact h.reaped hpc (h.base.core.mem_children (by simpa [admits] using hadm)).1 hbase
        (histAfter_messages (by rw [hpc]; rfl))
    | argsSurvive hpc =>
      exact h.frame hbase (.of_silent (Manager.clearEntry_pc (by simp) (by simp)))
        (histAfter_messages (by rw [hpc]; rfl))
        (Manager.clearEntry_field Manager.resultSendback fun _ _ => rfl)
        (by rw [Manager.clearEntry_field Manager.childStatus fun _ _ => rfl])
        (Manager.clearEntry_field (fun s => s.request.backend) fun _ _ => rfl)
        (by rw [hpc]; exact Manager.clearEntry_pc id id) (Or.inl (Manager.clearEntry_pc rfl rfl))
    | @stopKill k hpc | @stopIdle k hpc =>
      exact h.frame hbase (.of_silent fun _ _ => by cases k <;> simp [StopRet.pc])
        (histAfter_messages (by rw [hpc]; rfl)) rfl Iff.rfl rfl (by rw [hpc]; intro h; cases h)
        (Or.inl (by cases k <;> rfl))
    | loopCheck hpc => exact h.loopCheck hpc hbase (histAfter_messages (by rw [hpc]; rfl))
    | dispatch evs hpc =>
      exact h.frame hbase
        (.of_silent (Manager.dispatch_pc (by simp) (by simp) (by simp) (by simp) (by simp)))
        (histAfter_messages (by rw [hpc]; rfl)) rfl Iff.rfl rfl (by rw [hpc]; intro h; cases h)
        (Or.inl (Manager.dispatch_pc rfl (fun _ => rfl) (fun _ _ => rfl) (fun _ _ => rfl)
          fun _ => rfl))
    | heartbeat hpc =>
      exact h.frame hbase ⟨fun m hm => (by cases hm; rfl), by simp, by simp, by simp⟩
        (histAfter_messages (by rw [hpc]; rfl)) rfl Iff.rfl rfl (by rw [hpc]; intro h; cases h)
        (Or.inl rfl)
    | findMissing hpc =>
      exact h.frame hbase ⟨by simp, by simp, fun m evs hm => (by cases hm; rfl), by simp⟩
        (histAfter_messages (by rw [hpc]; rfl)) rfl Iff.rfl rfl (by rw [hpc]; intro h; cases h)
        (Or.inr (by rw [hpc]; rfl))
    | @findFound _ _ fs r hpc hf =>
      have hb : r.backend = p.mgr.request.backend := by
        have hsame : (findCommand fs p.mgr.request).2.backend = p.mgr.request.backend :=
          findCommand_backend
        rwa [hf] at hsame
      exact h.frame hbase (.of_silent fun _ _ => by simp) (histAfter_messages (by rw [hpc]; rfl))
        rfl Iff.rfl hb (by rw [hpc]; intro h; cases h) (Or.inr (by rw [hpc]; rfl))
    | clone hpc =>
      -- a command is cloned for an EXE only
      obtain ⟨-, hexe, hne⟩ := h.serving .exe (by rw [hpc]; rfl)
      exact h.silent hbase (.of_silent fun _ _ => by simp)
        (histAfter_messages (by rw [hpc]; rfl)) rfl
        rfl (by rw [hpc]; intro h; cases h) (fun _ => Or.inr ⟨hexe.symm, hne⟩)
        (fun me hme => h.serving me (by rw [hpc]; exact hme))
    | cloneFail hpc =>
      exact h.frame hbase (.of_silent fun _ _ => by simp)
        (histAfter_messages (by rw [hpc]; rfl)) rfl
        Iff.rfl rfl (fun _ => rfl) (Or.inl rfl)
    | replyBackend hpc =>
      exact h.frame hbase ⟨by simp, by simp, by simp, by simp⟩
        (histAfter_messages (by rw [hpc]; rfl)) rfl Iff.rfl rfl (by rw [hpc]; intro h; cases h)
        (Or.inr (by rw [hpc]; rfl))
    | listUnlock hpc | stopEnd hpc =>
      exact h.frame hbase ⟨by simp, by simp, by simp,
        fun m evs hm => (by cases hm; intro h; cases h)⟩
        (histAfter_messages (by rw [hpc]; rfl)) rfl Iff.rfl rfl (by rw [hpc]; intro h; cases h)
        (Or.inr (by rw [hpc]; rfl))
    | _ =>
      -- the other points send nothing; they serve the same request, or none, or end
      have hpc := ‹p.mgr.pc = _›
      first
        | exact h.frame hbase (.of_silent fun _ _ => by simp)
            (histAfter_messages (by rw [hpc]; rfl))
            rfl Iff.rfl rfl (by rw [hpc]; exact id) (Or.inr (by rw [hpc]; rfl))
        | exact h.frame hbase (.of_silent fun _ _ => by simp)
            (histAfter_messages (by rw [hpc]; rfl))
            rfl Iff.rfl rfl (by rw [hpc]; intro he; cases he) (Or.inl rfl)
        | exact h.frame hbase (.of_silent fun _ _ => by simp)
            (histAfter_messages (by rw [hpc]; rfl))
            rfl Iff.rfl rfl (fun _ => rfl) (Or.inl rfl)

theorem histAfter_received
    (h : ∀ data evs, p.mgr.pc = .recv data evs → l = .read none → data = []) :
    (p.histAfter E l).received = p.hist.received := by
  unfold histAfter
  split
  case h_1 data evs hpc => rw [if_pos (h data evs hpc rfl)]
  case h_8 m k data n hpc =>
    split
    · cases k <;> rfl
    · rfl
  all_goals first | rfl | (split <;> rfl)

/-- What a step does to the two lists of messages. -/
inductive Talk (E : Env) (p : Proc) (ev : Event) (p' : Proc) : Prop
  | silent (hsent : p'.hist.sent = p.hist.sent) (hrec : p'.hist.received = p.hist.received)
      (hread : ev = .mgr (.read none) → ∀ data evs, p.mgr.pc = .recv data evs → data = [])
      (hwrite : ∀ data, ev ≠ .mgr (.write data (.wrote data.length)))
  | read {data : Bytes} {evs : List Int} (hpc : p.mgr.pc = .recv data evs) (hdata : data ≠ [])
      (hev : ev = .mgr (.read none)) (hsent : p'.hist.sent = p.hist.sent)
      (hrec : p'.hist.received = p.hist.received ++ (E.parse data).toList)
      (hnext : p'.mgr.pc.ending = true ∨ (E.parse data).isSome)
  | wrote {m : Message} {k : SendRet} {data : Bytes} (hpc : p.mgr.pc = .send m k)
      (hev : ev = .mgr (.write data (.wrote data.length))) (hdata : E.serialize m = some data)
      (hsent : p'.hist.sent = p.hist.sent ++ [m]) (hrec : p'.hist.received = p.hist.received)

theorem Step.talk (hstep : Proc.Step E p ev p') : Talk E p ev p' := by
  cases hstep with
  | exit => exact .silent rfl rfl (by intro h; cases h) (by intro _ h; cases h)
  | mgr hadm hm =>
    cases hm with
    | sigterm =>
      exact .silent (by rw [histAfter_sigterm]) (by rw [histAfter_sigterm]) (by intro h; cases h)
        (by intro _ h; cases h)
    | unlockThrow hpc =>
      obtain ⟨hsent, hrec⟩ := histAfter_messages (E := E) (l := .flock .un)
        (Pc.talking_of_unlockThrow hpc)
      exact .silent hsent hrec (by intro h; cases h) (by intro _ h; cases h)
    | throws hl =>
      rename_i l
      obtain ⟨hpc, hl⟩ := Pc.throwing_of_throws hl
      have hwrite : ∀ data, Event.mgr l ≠ .mgr (.write data (.wrote data.length)) := by
        rintro data ⟨⟩
        simp [Label.throwing] at hl
      -- an exception is thrown at the end of a read when the bytes are no message, and elsewhere
      by_cases hread : ∃ data evs, p.mgr.pc = .recv data evs ∧ data ≠ [] ∧ l = .read none
      · obtain ⟨data, evs, hpc', hdata, rfl⟩ := hread
        exact .read hpc' hdata rfl (by simp [histAfter, hpc', hdata])
          (by simp [histAfter, hpc', hdata]) (Or.inl rfl)
      · refine .silent (histAfter_throwing hl).1 ?_ (fun hev data evs hpc' => ?_) hwrite
        · exact histAfter_received fun data evs hpc' hl' =>
            by_contra fun hne => hread ⟨data, evs, hpc', hne, hl'⟩
        · by_contra hne
          exact hread ⟨data, evs, hpc', hne, by cases hev; rfl⟩
    | received hpc hdata hparse =>
      exact .read hpc hdata rfl (by simp [histAfter, hpc, hdata]) (by simp [histAfter, hpc, hdata])
        (Or.inr (by simp [hparse]))
    | readNothing hpc =>
      refine .silent ?_ ?_ (fun _ data evs hpc' => ?_) (by intro _ h; cases h)
      · simp [histAfter, hpc]
      · simp [histAfter, hpc]
      · rw [hpc] at hpc'
        cases hpc'
        rfl
    | readChunk c hpc =>
      exact .silent (by simp [histAfter, hpc]) (by simp [histAfter, hpc]) (by intro h; cases h)
        (by intro _ h; cases h)
    | sent hpc hdata =>
      obtain ⟨hsent, hrec⟩ := histAfter_sent (E := E) hpc
      exact .wrote hpc rfl hdata hsent hrec
    | sigpipe hpc =>
      exact .silent (by simp [histAfter, hpc]) (by simp [histAfter, hpc]) (by intro h; cases h)
        (by intro _ h; cases h)
    | _ =>
      have hpc := ‹p.mgr.pc = _›
      exact .silent (histAfter_messages (by rw [hpc]; rfl)).1
        (histAfter_messages (by rw [hpc]; rfl)).2
        (by intro h; cases h) (by intro _ h; cases h)

/-- `manager_destroy` is not left again. -/
theorem Step.ending (hcore : Core p) (he : p.mgr.pc.ending = true) (hstep : Proc.Step E p ev p') :
    p'.mgr.pc.ending = true := by
  cases hstep.effect hcore with
  | quiet _ _ _ _ _ _ _ hend => exact hend he
  | clone _ _ _ hend => simp [hend] at he
  | sent hpc => rw [hpc] at he; cases he

end Proc

/-! ### The messages in flight -/

namespace Session

variable {E : Env} {call : Call} {s s' : Session}

/-- The invariant of a session. -/
structure Agreed (E : Env) (call : Call) (s : Session) : Prop where
  served : Proc.Served E call s.proc
  received : Requests call s.proc.hist.received
  /-- To the manager the request is in flight, and ACKs, until it ends. -/
  up : s.proc.mgr.pc.ending = false → ∃ ms, InFlight E ms s.toManager ∧
    Requests call (s.proc.hist.received ++ ms) ∧
    (s.client = .request → s.proc.hist.received ++ ms = []) ∧
    (s.client = .poll ∨ s.client = .ack → s.proc.hist.received ++ ms ≠ [])
  /-- To the client the last messages sent are in flight. -/
  down : ∃ pre ms, s.proc.hist.sent = pre ++ ms ∧ InFlight E ms s.toClient
  returned : ∀ m, s.client = .returned m → m ∈ s.proc.answers

theorem Agreed.start (fd : ℕ) : Agreed E call (start fd) where
  served := .start fd
  received := Or.inl rfl
  up := fun _ => ⟨[], .nil, Or.inl rfl, fun _ => rfl, fun h => by simp [Session.start] at h⟩
  down := ⟨[], [], rfl, .nil⟩
  returned := fun _ h => by simp [Session.start] at h

/-- The client writes its request, or an ACK. -/
theorem Agreed.write (hE : E.WritesBytes) (h : Agreed E call s) {m : Message}
    (hm : 0 < m.fieldCount)
    (hreq : ∀ ms, Requests call (s.proc.hist.received ++ ms) →
      (s.client = .request → s.proc.hist.received ++ ms = []) →
      (s.client = .poll ∨ s.client = .ack → s.proc.hist.received ++ ms ≠ []) →
      Requests call (s.proc.hist.received ++ (ms ++ [m]))) : Agreed E call (s.write E m) := by
  unfold Session.write
  split
  · -- `serialize` fails: nothing is written
    refine ⟨h.served, h.received, fun he => ?_, h.down, fun _ hm => (by cases hm)⟩
    obtain ⟨ms, hms, hreqs, -, -⟩ := h.up he
    exact ⟨ms, hms, hreqs, fun hc => (by cases hc),
      fun hc => (by rcases hc with hc | hc <;> cases hc)⟩
  · next b hb =>
    refine ⟨h.served, h.received, fun he => ?_, h.down, fun _ hm => (by cases hm)⟩
    obtain ⟨ms, hms, hreqs, hstart, hgo⟩ := h.up he
    refine ⟨ms ++ [m], ?_, hreq ms hreqs hstart hgo, fun hc => (by cases hc), fun _ => by simp⟩
    simp only [if_neg (hE hb hm)]
    exact hms.concat hb

theorem call_fieldCount (call : Call) : 0 < call.message.fieldCount := by
  cases call with
  | run r => simp [Call.message, Message.fieldCount]
  | list => simp [Call.message, Message.fieldCount]
  | stop pids =>
    show 0 < 1 + 0 + 0 + (pids.map fun pid => ({ pid := pid } : Runproc)).length
    omega

theorem recv_of_admits (h : s.admits (.mgr (.read none)) = true) :
    ∃ data evs, s.proc.mgr.pc = .recv data evs := by
  simp only [admits] at h
  split at h
  · next hpc => exact ⟨_, _, hpc⟩
  · exact ⟨_, _, ‹s.proc.mgr.pc = _›⟩
  · cases h

/-- A write to an open connection succeeds, and no other. -/
theorem length_of_admits {data : Bytes} {n : ℕ}
    (h : s.admits (.mgr (.write data (.wrote n))) = true) : n = data.length := by
  simp only [admits] at h
  split at h
  · simpa using h
  · simp at h

/-- The manager takes a step. -/
theorem Agreed.server (hE : E.ParsesBack) (h : Agreed E call s) {ev : Event} {p : Proc}
    (hadm : s.admits ev = true) (hstep : Proc.Step E s.proc ev p) :
    Agreed E call
      { s with proc := p, toManager := s.toManagerAfter ev, toClient := s.toClientAfter ev } := by
  have hcore := h.served.base.core
  have hend : p.mgr.pc.ending = false → s.proc.mgr.pc.ending = false := fun he =>
    Bool.eq_false_iff.mpr fun he' => by simp [hstep.ending hcore he'] at he
  have hans : p.hist.sent = s.proc.hist.sent → p.answers = s.proc.answers := fun heq => by
    rw [Proc.answers, heq, Proc.answers]
  cases hstep.talk with
  | silent hsent hrec hread hwrite =>
    have hto : s.toManagerAfter ev = s.toManager := by
      unfold toManagerAfter
      split
      · obtain ⟨data, evs, hpc⟩ := recv_of_admits hadm
        obtain rfl := hread rfl data evs hpc
        rw [hpc]
        rfl
      · rfl
    have hfrom : s.toClientAfter ev = s.toClient := by
      unfold toClientAfter
      split
      · -- a write that succeeds adds its message, so this step was none
        next data n =>
        obtain rfl := length_of_admits hadm
        exact absurd rfl (hwrite data)
      · rfl
    rw [hto, hfrom]
    refine ⟨h.served.step (hrec ▸ h.received) hstep, hrec ▸ h.received, fun he => ?_, ?_, ?_⟩
    · rw [hrec]
      exact h.up (hend he)
    · rw [hsent]
      exact h.down
    · rw [hans hsent]
      exact h.returned
  | @read data evs hpc hdata hev hsent hrec hnext =>
    subst hev
    -- the bytes read are those of the first message in flight
    obtain ⟨ms, hms, hreqs, hstart, hgo⟩ := h.up (by rw [hpc]; rfl)
    have hhead : s.toManager.head? = some data := by
      cases data with
      | nil => exact absurd rfl hdata
      | cons b bs => simpa [admits, hpc] using hadm
    obtain ⟨rest, hto⟩ := List.head?_eq_some_iff.mp hhead
    rw [hto] at hms
    obtain ⟨m, ms', rfl, hms', hparse⟩ := hms.parse hE
    have hreq : Requests call p.hist.received := by
      rw [hrec]
      -- what has been received and what is left is still the call's
      cases hm : E.parse data with
      | none => simpa using h.received
      | some m' =>
        rw [hparse m' hm]
        exact Requests.left (show Requests call ((s.proc.hist.received ++ [m]) ++ ms') by
          simpa using hreqs)
    have hafter : s.toManagerAfter (.mgr (.read none)) = rest := by
      cases data with
      | nil => exact absurd rfl hdata
      | cons b bs => simp [toManagerAfter, hpc, hto]
    refine ⟨h.served.step hreq hstep, hreq, fun he => ?_, by rw [hsent]; exact h.down,
      by rw [hans hsent]; exact h.returned⟩
    obtain ⟨m', hm'⟩ := Option.isSome_iff_exists.mp (hnext.resolve_left (by simp [he]))
    have hsame : p.hist.received ++ ms' = s.proc.hist.received ++ m :: ms' := by
      rw [hrec, hm', hparse m' hm']
      simp
    exact ⟨ms', by rwa [hafter], by rwa [hsame], by rwa [hsame], by rwa [hsame]⟩
  | @wrote m k data hpc hev hdata hsent hrec =>
    subst hev
    obtain ⟨pre, ms, hsent', hms⟩ := h.down
    refine ⟨h.served.step (hrec ▸ h.received) hstep, hrec ▸ h.received, fun he => ?_,
      ⟨pre, ms ++ [m], by rw [hsent, hsent', List.append_assoc], hms.concat hdata⟩,
      fun m' hm' => ?_⟩
    · rw [hrec]
      exact h.up (hend he)
    · have := h.returned m' hm'
      rw [Proc.answers, hsent, List.filter_append]
      exact List.mem_append_left _ this

theorem Agreed.step (hne : E.WritesBytes) (hE : E.ParsesBack) (h : Agreed E call s)
    {ev : SessionEvent} (hstep : s.step E call ev = some s') : Agreed E call s' := by
  cases ev with
  | send =>
    simp only [Session.step] at hstep
    split at hstep
    · next hc =>
      cases hstep
      -- the request is the first message
      refine h.write hne (call_fieldCount call) fun ms _ hstart _ => Or.inr ⟨[], ?_, by simp⟩
      rw [← List.append_assoc, hstart hc, List.nil_append]
    · next hc =>
      split at hstep
      · cases hstep
        -- an ACK comes after the request
        refine h.write hne (by decide) fun ms hreqs _ hgo => ?_
        rcases hreqs with hnil | ⟨acks, heq, hacks⟩
        · exact absurd hnil (hgo (Or.inr hc))
        · refine Or.inr ⟨acks ++ [ackMessage], ?_, ?_⟩
          · rw [← List.append_assoc, heq, List.cons_append]
          · rintro m hm
            rcases List.mem_append.mp hm with hm | hm
            · exact hacks m hm
            · rw [List.mem_singleton.mp hm, ackMessage]
      · cases hstep
    · cases hstep
  | receive =>
    simp only [Session.step] at hstep
    split at hstep
    · next b bs hc hb =>
      cases hstep
      obtain ⟨pre, ms, hsent, hms⟩ := h.down
      rw [hb] at hms
      -- the client reads a whole message, the first one in flight
      obtain ⟨m, ms', rfl, hms', hparse⟩ := hms.parse hE
      refine ⟨h.served, h.received, fun he => ?_, ⟨pre ++ [m], ms', by simp [hsent], hms'⟩,
        fun m' hm' => ?_⟩
      · obtain ⟨us, hus, hreqs, -, hgo⟩ := h.up he
        exact ⟨us, hus, hreqs, fun hc' => absurd hc' SruncPc.received_ne_request,
          fun _ => hgo (Or.inl hc)⟩
      · obtain ⟨hm', hsyn⟩ := SruncPc.received_eq_returned hm'
        rw [hparse m' (parse_of_recvMessage hm')] at hsyn ⊢
        simp [Proc.answers, hsent, hsyn]
    · cases hstep
  | fail =>
    simp only [Session.step] at hstep
    split at hstep <;> cases hstep
    all_goals
      refine ⟨h.served, h.received, fun he => ?_, h.down, fun _ hm => (by cases hm)⟩
      obtain ⟨ms, hms, hreqs, -, -⟩ := h.up he
      exact ⟨ms, hms, hreqs, fun hc => (by cases hc),
        fun hc => (by rcases hc with hc | hc <;> cases hc)⟩
  | close =>
    simp only [Session.step] at hstep
    split at hstep
    · cases hstep
      exact ⟨h.served, h.received, h.up, h.down, h.returned⟩
    · cases hstep
  | server ev =>
    simp only [Session.step] at hstep
    split at hstep
    · next hadm =>
      obtain ⟨p, hp, rfl⟩ := Option.map_eq_some_iff.mp hstep
      exact h.server hE hadm (Proc.step_cases hp)
    · cases hstep

theorem Agreed.of_reachable {fd : ℕ} (hne : E.WritesBytes) (hE : E.ParsesBack)
    (h : Machine.Reachable (Session.step E call) (Session.start fd) s) : Agreed E call s :=
  h.invariant (fun _ _ _ hs hstep => hs.step hne hE hstep) (.start fd)

/-- What the call has returned with is the answer. -/
theorem Agreed.answer (h : Agreed E call s) {m : Message} (hm : s.client = .returned m) :
    m.method = call.message.method ∧ s.proc.answers = [m] := by
  have hmem := h.returned m hm
  obtain ⟨m', hans⟩ := List.length_eq_one_iff.mp
    (Nat.le_antisymm h.served.one (List.length_pos_of_mem hmem))
  rw [hans, List.mem_singleton] at hmem
  exact ⟨h.served.method m (by simp [hans, hmem]), by rw [hans, hmem]⟩

/-- **Client and manager agree on one answer.** In every reachable state of a
session the manager has written at most one message that is no heartbeat; if the
call has returned true, then with this message, and its method is that of the
request; and before the answer to a foreground command is written, unless it is
BADARGS, the command has been cloned and reaped and its outputs are over. -/
theorem one_answer {fd : ℕ} (hne : E.WritesBytes) (hE : E.ParsesBack)
    (h : Machine.Reachable (Session.step E call) (Session.start fd) s) :
    s.proc.answers.length ≤ 1 ∧
    (∀ m, s.client = .returned m → m.method = call.message.method ∧ s.proc.answers = [m]) ∧
    ∀ r r' m k, call = .run r → E.loadRequest r = some r' → r'.backend = false →
      s.proc.mgr.pc = .send m k → m.method ≠ .syn → m.getResponse.stat ≠ .badargs →
      s.proc.hist.clones ≠ 0 ∧ s.proc.children = [] ∧ s.proc.mgr.out.over = true ∧
        s.proc.mgr.err.over = true := by
  have hagreed := Agreed.of_reachable hne hE h
  have hserved := hagreed.served
  refine ⟨hserved.one, fun m hm => hagreed.answer hm, fun r r' m k hcall hr hb hpc hsyn hbad => ?_⟩
  cases k with
  | result =>
    -- the result is sent when `exec_over`, and then there is no child left
    have hover := hserved.voice.result m hpc
    simp only [Manager.execOver, Bool.and_eq_true, decide_eq_true_eq] at hover
    obtain ⟨⟨hexit, hout⟩, herr⟩ := hover
    refine ⟨fun h0 => ?_, hserved.base.core.idle (by simp [hexit]), hout, herr⟩
    simp [hserved.base.cloned.mp h0] at hexit
  -- a heartbeat and BADARGS are excluded, and the other answers are not for this call
  | heartbeat => exact absurd (hserved.voice.heartbeat m hpc) hsyn
  | badArgs evs => exact absurd (hserved.voice.badArgs m evs hpc) hbad
  | started evs =>
    -- that is the answer to a backend command
    have hback := (hserved.base.started m evs hpc).2
    obtain ⟨-, -, hne⟩ := hserved.serving m.method (by rw [hpc]; rfl)
    rw [hserved.backend r r' hcall hr hne (by rw [hpc]; rfl), hb] at hback
    cases hback
  | reply evs =>
    have hmethod := (hserved.serving m.method (by rw [hpc]; rfl)).2.1
    rw [hcall] at hmethod
    exact absurd hmethod (hserved.voice.reply m evs hpc)

/-- A session for `/bin/ls`: the request, a heartbeat while the command runs and its
ACK, the end of the command and the answer. -/
def lsSession : List SessionEvent :=
  .send :: (Proc.lsLabels ++ Label.epollWait .timeout :: .write [8, 1] (.wrote 2) ::
      Proc.loopLabels).map (fun l => .server (.mgr l)) ++
    [.receive, .send] ++
    (Proc.receiveLabels Proc.ackData ++ Proc.loopLabels).map
      (fun l => .server (.mgr l)) ++
    (Proc.lsEndEvents (.exited 0)).map .server ++
    [.server (.mgr .tau), .server (.mgr (.write [0x12, 0] (.wrote 2))), .receive]

/-- What the client gets is the one answer. -/
theorem one_answer_ls :
    ∃ s m, Machine.exec (Session.step Proto3.env (.run { args := ["/bin/ls"] }))
        (Session.start 5) lsSession = some s ∧
      s.client = .returned m ∧ m.method = .exe ∧ s.proc.answers = [m] := by
  obtain ⟨s, hrun, hs⟩ := Machine.exec_of_any
    (show (Machine.exec (Session.step Proto3.env (.run { args := ["/bin/ls"] }))
      (Session.start 5) lsSession).any
      (fun s => s.client == .returned { response := some {} }) = true by decide +kernel)
  have hs := beq_iff_eq.mp hs
  obtain ⟨-, hreturned, -⟩ := one_answer Proto3.env_writesBytes Proto3.env_parsesBack ⟨_, hrun⟩
  exact ⟨s, _, hrun, hs, hreturned _ hs⟩

end Session
end Srun
