import Srun.Agreement
import Srun.Registration

/-!
# The end of a connection

When `recv_message` finds the connection closed it stops the command, unless the request
is a backend one or `result_sendback` says that the client has its result. The request that
it looks at is that of the last EXE, and the flag stands for all messages but heartbeats
that have been sent, whatever command is running meanwhile.

`Attended` says what the two variables stand for, over all runs. From it follows which
commands are stopped (`disconnect_iff`): a backend command never is, and a foreground one is
if nothing but heartbeats has been sent and the last EXE was a foreground one too.
-/

namespace Srun

/-- The variables have been overwritten by a LIST whose answer has not been sent, or by an
EXE whose `loadRequest` does not return, or the manager is ending. -/
def Pc.overwriting : Pc → Bool
  | .list _ _ _ | .spinning _ => true
  | .send m (.reply _) => m.isResult
  | pc => pc.ending

namespace Proc

/-- The request that the command of the message `data` has been accepted with. -/
def accepted (E : Env) (data : Bytes) : Option Request :=
  (E.parse data).bind fun m => E.loadRequest m.getRequest

/-- The request that the last EXE message leaves behind. -/
def lastRequest (E : Env) (ms : List Message) : Request :=
  ms.foldl
    (fun r m => if m.method = .exe then (E.loadRequest m.getRequest).getD m.getRequest else r) {}

/-- `recv_message` has returned; the events `evs` of the batch are still to be dispatched. -/
def Returned (evs : List Int) (p : Proc) : Prop := p.mgr.pc = .dispatch evs

/-- Whatever comes between, `recv_message` sends SIGTERM to `pid` before it returns. -/
def Stops (E : Env) (p : Proc) (evs : List Int) (pid : Int) : Prop :=
  ∀ run, Machine.LeadsTo (step E) (Returned evs) p run → .mgr (.kill pid) ∈ run

/-- `recv_message` returns without a signal. -/
def Spares (E : Env) (p : Proc) (evs : List Int) : Prop :=
  ∀ run, Machine.LeadsTo (step E) (Returned evs) p run → ∀ pid, .mgr (.kill pid) ∉ run

/-- The rule for a command `pid` that has been accepted with the request `r`. -/
structure DisconnectRule (E : Env) (p : Proc) (evs : List Int) (pid : Int)
    (r : Request) : Prop where
  foreground : r.backend = false → Stops E p evs pid
  backend : r.backend = true → Spares E p evs

/-- The client has been sent nothing but heartbeats, and its last EXE was for a foreground
command. -/
structure Waiting (E : Env) (h : History) : Prop where
  sent : ∀ m ∈ h.sent, m.isResult = false
  last : (lastRequest E h.received).backend = false

variable {E : Env} {p p' : Proc} {ev : Event} {l : Label}

theorem lastRequest_concat (ms : List Message) (m : Message) :
    lastRequest E (ms ++ [m]) =
      if m.method = .exe then (E.loadRequest m.getRequest).getD m.getRequest
      else lastRequest E ms := by
  simp [lastRequest]

/-! ### What the two variables stand for -/

/-- The flag and the stored request, in terms of the messages of the connection. -/
structure Attended (E : Env) (p : Proc) : Prop where
  flag : p.mgr.resultSendback = p.hist.sent.any (·.isResult)
  last : p.mgr.resultSendback = false → p.mgr.pc.overwriting = false →
    p.mgr.request.backend = (lastRequest E p.hist.received).backend
  handling : ∀ pt data evs, p.mgr.pc = .handle pt data evs →
    ∃ r, accepted E data = some r ∧ p.mgr.request.backend = r.backend

/-- The command, once it has been started: the client of a backend one has been told. -/
structure Started (E : Env) (p : Proc) (c : Command) (r : Request) : Prop where
  request : accepted E c.data = some r
  setup : p.mgr.pc.setup = true → p.mgr.request.backend = r.backend
  told : r.backend = true → p.mgr.pc.setup = false → p.mgr.pc.ending = false →
    p.mgr.resultSendback = true

theorem Attended.start (fd : ℕ) : Attended E (start fd) where
  flag := rfl
  last := fun _ _ => rfl
  handling := fun _ _ _ h => by cases h

/-- **Frame rule.** A step that neither reads nor writes a message and leaves the request
alone. -/
theorem Attended.frame (h : Attended E p) {m : Manager} {ch : List (Int × Life)} {hi : History}
    (hmessages : hi.sent = p.hist.sent ∧ hi.received = p.hist.received)
    (hflag : m.resultSendback = p.mgr.resultSendback)
    (hb : m.request.backend = p.mgr.request.backend)
    (hover : m.pc.overwriting = false → p.mgr.pc.overwriting = false)
    (hhandle : ∀ pt data evs, m.pc = .handle pt data evs → ∃ pt', p.mgr.pc = .handle pt' data evs) :
    Attended E { mgr := m, children := ch, hist := hi } := by
  obtain ⟨hsent, hrec⟩ := hmessages
  constructor
  case flag =>
    show m.resultSendback = hi.sent.any (·.isResult)
    rw [hflag, hsent]
    exact h.flag
  case last =>
    intro hf ho
    show m.request.backend = (lastRequest E hi.received).backend
    rw [hb, hrec]
    exact h.last (hflag ▸ hf) (hover ho)
  case handling =>
    intro pt data evs hpc
    obtain ⟨pt', hpc'⟩ := hhandle pt data evs hpc
    obtain ⟨r, hr, hbr⟩ := h.handling pt' data evs hpc'
    exact ⟨r, hr, hb.trans hbr⟩

/-- Nothing is handled at the point reached. -/
theorem Attended.away (h : Attended E p) {m : Manager} {ch : List (Int × Life)} {hi : History}
    (hmessages : hi.sent = p.hist.sent ∧ hi.received = p.hist.received)
    (hflag : m.resultSendback = p.mgr.resultSendback)
    (hb : m.request.backend = p.mgr.request.backend)
    (hover : m.pc.overwriting = false → p.mgr.pc.overwriting = false)
    (haway : ∀ pt data evs, m.pc ≠ .handle pt data evs) :
    Attended E { mgr := m, children := ch, hist := hi } :=
  h.frame hmessages hflag hb hover fun pt data evs hpc => absurd hpc (haway pt data evs)

/-- The effect of an exception. -/
theorem Attended.ends (h : Attended E p) {m : Manager} {ch : List (Int × Life)} {hi : History}
    (hsent : hi.sent = p.hist.sent) (hflag : m.resultSendback = p.mgr.resultSendback)
    (hend : m.pc.overwriting = true) (haway : ∀ pt data evs, m.pc ≠ .handle pt data evs) :
    Attended E { mgr := m, children := ch, hist := hi } := by
  refine ⟨?_, fun _ ho => ?_, fun pt data evs hpc => absurd hpc (haway pt data evs)⟩
  · show m.resultSendback = hi.sent.any (·.isResult)
    rw [hflag, hsent]
    exact h.flag
  · have ho : m.pc.overwriting = false := ho
    rw [hend] at ho
    cases ho

/-- The effect of a message that has been read. -/
theorem Attended.received (h : Attended E p) {data : Bytes} {m : Message} {evs : List Int}
    {ch : List (Int × Life)} {hi : History} (hpc : p.mgr.pc = .recv data evs)
    (hparse : E.parse data = some m)
    (hsent : hi.sent = p.hist.sent) (hrec : hi.received = p.hist.received ++ [m]) :
    Attended E { mgr := Manager.received E p.mgr data m evs, children := ch, hist := hi } := by
  have hflag : (Manager.received E p.mgr data m evs).resultSendback = p.mgr.resultSendback :=
    Manager.received_field Manager.resultSendback fun _ _ _ => rfl
  have hlast : p.mgr.resultSendback = false →
      p.mgr.request.backend = (lastRequest E p.hist.received).backend :=
    fun hf => h.last hf (by rw [hpc]; rfl)
  -- the stored request, and the points at which an EXE is handled
  suffices hs : (p.mgr.resultSendback = false →
        (Manager.received E p.mgr data m evs).pc.overwriting = false →
        (Manager.received E p.mgr data m evs).request.backend =
          (lastRequest E (p.hist.received ++ [m])).backend) ∧
      ∀ pt data' evs', (Manager.received E p.mgr data m evs).pc = .handle pt data' evs' →
        ∃ r, accepted E data' = some r ∧
          (Manager.received E p.mgr data m evs).request.backend = r.backend by
    refine ⟨?_, fun hf ho => ?_, hs.2⟩
    · show (Manager.received E p.mgr data m evs).resultSendback = hi.sent.any (·.isResult)
      rw [hflag, hsent]
      exact h.flag
    · show _ = (lastRequest E hi.received).backend
      rw [hrec]
      exact hs.1 (hflag ▸ hf) ho
  rw [lastRequest_concat]
  unfold Manager.received
  cases hmethod : m.method with
  | exe =>
    cases hload : E.loadRequest m.getRequest with
    -- `loadRequest` does not return, and nothing is compared any more
    | none => exact ⟨fun _ ho => (by cases ho), fun _ _ _ hpc' => (by cases hpc')⟩
    | some r =>
      refine ⟨fun _ _ => by simp, fun pt data' evs' hpc' => ?_⟩
      obtain ⟨-, rfl, -⟩ := Pc.handle.inj hpc'
      exact ⟨r, by simp [accepted, hparse, hload], rfl⟩
  -- LIST overwrites `backend`, until its answer is sent
  | list => exact ⟨fun _ ho => (by cases ho), fun _ _ _ hpc' => (by cases hpc')⟩
  -- the other messages leave the request
  | syn | ack | stop | other n =>
    refine ⟨fun hf _ => ?_, fun _ _ _ hpc' => (by cases hpc')⟩
    simpa using hlast hf

/-- The effect of a message that has been written. -/
theorem Attended.sent (h : Attended E p) {m : Message} {k : SendRet} {ch : List (Int × Life)}
    {hi : History} (hpc : p.mgr.pc = .send m k)
    (hsent : hi.sent = p.hist.sent ++ [m] ∧ hi.received = p.hist.received) :
    Attended E
      { mgr := { p.mgr with resultSendback := p.mgr.resultSendback || m.isResult }.goto k.pc
        children := ch, hist := hi } := by
  obtain ⟨hsent, hrec⟩ := hsent
  refine ⟨?_, fun hf _ => ?_, fun pt data evs hpc' => ?_⟩
  · show (p.mgr.resultSendback || m.isResult) = hi.sent.any (·.isResult)
    rw [hsent, h.flag]
    simp
  · obtain ⟨hf, hm⟩ := Bool.or_eq_false_iff.mp hf
    show p.mgr.request.backend = (lastRequest E hi.received).backend
    rw [hrec]
    -- the answer to a LIST would have set the flag
    refine h.last hf ?_
    rw [hpc]
    cases k with
    | reply evs => exact hm
    | _ => rfl
  · cases k <;> cases hpc'

theorem Attended.step (h : Attended E p) (hstep : Proc.Step E p ev p') : Attended E p' := by
  have silent : ∀ {l}, p.mgr.pc.talking = false →
      (p.histAfter E l).sent = p.hist.sent ∧ (p.histAfter E l).received = p.hist.received :=
    histAfter_messages
  cases hstep with
  | exit => exact ⟨h.flag, h.last, h.handling⟩
  | mgr hadm hm =>
    cases hm with
    | sigterm =>
      rw [histAfter_sigterm]
      exact ⟨h.flag, h.last, h.handling⟩
    | throws hl =>
      obtain ⟨-, hl⟩ := Pc.throwing_of_throws hl
      exact h.ends (histAfter_throwing hl).1 rfl rfl (by simp)
    | unlockThrow hpc =>
      exact h.ends (silent (Pc.talking_of_unlockThrow hpc)).1 rfl rfl (by simp)
    | received hpc hdata hparse =>
      refine h.received hpc hparse ?_ ?_ <;> simp [histAfter, hpc, hdata, hparse]
    | sent hpc => exact h.sent hpc (histAfter_sent hpc)
    | readChunk c hpc | readNothing hpc =>
      exact h.away (by simp [histAfter, hpc]) rfl rfl (fun _ => by rw [hpc]; rfl) (by simp)
    | sigpipe hpc => exact h.ends (by simp [histAfter, hpc]) rfl rfl (by simp)
    | @waitNone k hpc =>
      exact h.away (silent (by rw [hpc]; rfl)) rfl rfl
        (by rw [hpc]; cases k <;> exact id) (by cases k <;> simp [WaitRet.pc])
    | waitOther hpc =>
      exact h.away (silent (by rw [hpc]; rfl)) rfl rfl id (by rw [hpc]; simp)
    | reap hpc =>
      exact h.away (silent (by rw [hpc]; rfl))
        (Manager.reaped_field Manager.resultSendback fun _ _ _ _ => rfl)
        (Manager.reaped_field (fun s => s.request.backend) fun _ _ _ _ => rfl)
        (by rw [hpc]; exact Manager.reaped_pc id id id)
        (Manager.reaped_pc (by simp) (by simp) (by simp))
    | argsSurvive hpc =>
      exact h.away (silent (by rw [hpc]; rfl))
        (Manager.clearEntry_field Manager.resultSendback fun _ _ => rfl)
        (Manager.clearEntry_field (fun s => s.request.backend) fun _ _ => rfl)
        (by rw [hpc]; exact Manager.clearEntry_pc id id) (Manager.clearEntry_pc (by simp) (by simp))
    | @stopKill k hpc | @stopIdle k hpc =>
      exact h.away (silent (by rw [hpc]; rfl)) rfl rfl (fun _ => by rw [hpc]; rfl)
        (by cases k <;> simp [StopRet.pc])
    | loopCheck hpc =>
      exact h.away (silent (by rw [hpc]; rfl)) rfl rfl (fun _ => by rw [hpc]; rfl)
        (Manager.loopCheck_pc (by simp) (by simp) (by simp))
    | dispatch evs hpc =>
      exact h.away (silent (by rw [hpc]; rfl)) rfl rfl (fun _ => by rw [hpc]; rfl)
        (Manager.dispatch_pc (by simp) (by simp) (by simp) (by simp) (by simp))
    | @findFound data evs fs r hpc hf =>
      have hb : r.backend = p.mgr.request.backend := by
        have hsame : (findCommand fs p.mgr.request).2.backend = p.mgr.request.backend :=
          findCommand_backend
        rwa [hf] at hsame
      exact h.frame (silent (by rw [hpc]; rfl)) rfl hb (fun _ => by rw [hpc]; rfl)
        fun pt data evs hpc' => ⟨.find, by obtain ⟨-, rfl, rfl⟩ := Pc.handle.inj hpc'; exact hpc⟩
    | _ =>
      have hpc := ‹p.mgr.pc = _›
      first
        | exact h.frame (silent (by rw [hpc]; rfl)) rfl rfl (fun _ => by rw [hpc]; rfl)
            fun pt data evs hpc' =>
              ⟨_, by obtain ⟨-, rfl, rfl⟩ := Pc.handle.inj hpc'; exact hpc⟩
        | exact h.away (silent (by rw [hpc]; rfl)) rfl rfl (fun _ => by rw [hpc]; rfl)
            (by intro _ _ _ hc; cases hc)
        | exact h.ends (silent (by rw [hpc]; rfl)).1 rfl rfl (by intro _ _ _ hc; cases hc)
        | exact h.away (silent (by rw [hpc]; rfl)) rfl rfl (by rw [hpc]; exact id)
            (by intro _ _ _ hc; cases hc)

/-! ### The command -/

/-- Only a clone replaces the message of the command. -/
theorem histAfter_command_data (h : ∀ pid, l = .clone pid → pid = -1) :
    (p.histAfter E l).command.map (·.data) = p.hist.command.map (·.data) := by
  have hdone : (p.hist.command.map ({ · with completed := true })).map (·.data) =
      p.hist.command.map (·.data) := by
    cases p.hist.command <;> rfl
  unfold histAfter
  split
  -- the clone, the end of `handle_request`, and the message that tells the client
  case h_2 pid hpc => rw [if_pos (h pid rfl)]
  case h_4 =>
    split
    · rfl
    · exact hdone
  case h_8 m k data n hpc =>
    split
    · cases k with
      | started evs => exact hdone
      | _ => rfl
    · rfl
  all_goals first | rfl | (split <;> rfl)

theorem Step.command_data (hstep : Proc.Step E p ev p')
    (h : ∀ pid, ev = .mgr (.clone pid) → pid = -1) {c' : Command}
    (hc' : p'.hist.command = some c') : ∃ c, p.hist.command = some c ∧ c.data = c'.data := by
  cases hstep with
  | exit => exact ⟨c', hc', rfl⟩
  | @mgr l m hadm hm =>
    have hdata := histAfter_command_data (E := E) (p := p) (l := l) fun pid hl => h pid (by rw [hl])
    have hc' : (p.histAfter E l).command = some c' := hc'
    rw [hc'] at hdata
    obtain ⟨c, hc, hcd⟩ := Option.map_eq_some_iff.mp hdata.symm
    exact ⟨c, hc, hcd⟩

/-- The invariant of a manager about its command and its client. -/
structure Attending (E : Env) (p : Proc) : Prop where
  base : Base p
  recorded : Recorded p
  attended : Attended E p
  started : ∀ pid ∈ p.pids, ∀ c, p.hist.command = some c → ∃ r, Started E p c r

theorem Attending.start (fd : ℕ) : Attending E (start fd) where
  base := Base.start fd
  recorded := Recorded.start fd
  attended := Attended.start fd
  started := fun _ h => by simp [Proc.pids, Proc.start] at h

/-- The command goes on. -/
theorem Started.step {c c' : Command} {r : Request} (h : Started E p c r) (hbase : Base p)
    (hstep : Proc.Step E p ev p') (hdata : c.data = c'.data)
    (hclone : ∀ pid, ev = .mgr (.clone pid) → pid = -1) : Started E p' c' r := by
  cases hstep.effect hbase.core with
  | quiet _ hflag _ _ _ hin hout hend =>
    refine ⟨hdata ▸ h.request, fun hs' => ?_, fun hr hs' he' => ?_⟩
    · obtain ⟨hs, hb⟩ := hin hs'
      rw [hb]
      exact h.setup hs
    · have he : p.mgr.pc.ending = false :=
        Bool.eq_false_iff.mpr fun he => by rw [hend he] at he'; cases he'
      have hs : p.mgr.pc.setup = false := by
        refine Bool.eq_false_iff.mpr fun hs => ?_
        -- only a foreground command leaves the set-up without an answer
        rcases hout hs with hs'' | he'' | hb
        · rw [hs''] at hs'
          cases hs'
        · rw [he''] at he'
          cases he'
        · rw [h.setup hs, hr] at hb
          cases hb
      rw [hflag]
      exact h.told hr hs he
  | clone hev hpid => exact absurd (hclone _ hev) hpid
  | @sent m k data hpc _ hflag _ _ _ hs' =>
    refine ⟨hdata ▸ h.request, fun hs => absurd hs (by simp [hs']), fun hr _ _ => ?_⟩
    rw [hflag, Bool.or_eq_true]
    by_cases hs : p.mgr.pc.setup = true
    · -- the answer to the command itself
      have hm : m.isResult = true := by
        cases k with
        | started evs => exact (hbase.started m evs hpc).1
        | _ => rw [hpc] at hs; cases hs
      exact Or.inr hm
    · exact Or.inl (h.told hr (by simpa using hs) (by rw [hpc]; rfl))

theorem Attending.step (h : Attending E p) (hstep : Proc.Step E p ev p') : Attending E p' := by
  have hattended := h.attended.step hstep
  refine ⟨h.base.step hstep, h.recorded.step h.base.core hstep, hattended,
    fun pid hpid c' hc' => ?_⟩
  by_cases hclone : ∃ pid, ev = .mgr (.clone pid) ∧ pid ≠ -1
  · -- a new command: its request is the one that is being handled
    obtain ⟨pid, rfl, hne⟩ := hclone
    cases hstep with
    | mgr hadm hm =>
      cases hm with
      | @clone data evs _ hpc =>
        obtain ⟨r, hr, hb⟩ := hattended.handling .leaf data evs rfl
        have hc : c' = ⟨pid, data, false⟩ := by
          simpa [histAfter, hpc, hne] using hc'.symm
        rw [hc]
        exact ⟨r, hr, fun _ => hb, fun _ hs => (by cases hs)⟩
      | cloneFail => exact absurd rfl hne
      | throws hl => cases (Pc.throwing_of_throws hl).2
  · have hkeep : ∀ pid, ev = .mgr (.clone pid) → pid = -1 := fun pid hev =>
      by_contra fun hne => hclone ⟨pid, hev, hne⟩
    obtain ⟨c, hc, hdata⟩ := hstep.command_data hkeep hc'
    have hold : pid ∈ p.pids := (hstep.pids hpid).resolve_right fun hev => hev.2 (hkeep pid hev.1)
    obtain ⟨r, hr⟩ := h.started pid hold c hc
    exact ⟨r, hr.step h.base hstep hdata hkeep⟩

/-! ### The rule -/

/-- `recv_message` is about to stop the command. -/
structure Stopping (p : Proc) (evs : List Int) (pid : Int) : Prop where
  running : p.mgr.childStatus = .procRunning
  pid : p.mgr.clonepid = pid
  point : p.mgr.pc = .stopChild (.closed evs) ∨
    (p.mgr.pc = .disconnect evs ∧ p.mgr.request.backend = false ∧ p.mgr.resultSendback = false)

theorem Stopping.stops {evs : List Int} {pid : Int} (h : Stopping p evs pid) :
    Stops E p evs pid := by
  intro run hrun
  refine Machine.LeadsTo.mem (P := fun p => Stopping p evs pid) (fun p h hret => ?_)
    (fun p ev p' h hstep => ?_) h hrun
  · rcases h.point with hpc | ⟨hpc, -, -⟩ <;> cases hpc.symm.trans hret
  · cases step_cases hstep with
    | exit => exact Or.inr ⟨h.running, h.pid, h.point⟩
    | mgr hadm hm =>
      -- at `stop_child` the signal is the only step; before it the connection is closed
      rcases h.point with hpc | ⟨hpc, hb, hflag⟩
      · cases hm with
        | sigterm => exact Or.inr ⟨h.running, h.pid, h.point⟩
        | stopKill => exact Or.inl (by rw [h.pid])
        | stopIdle _ hidle => exact absurd h.running hidle
        | throws hl => rw [hpc] at hl; cases hl
        | unlockThrow hl => rw [hpc] at hl; cases hl
        | _ => rw [‹p.mgr.pc = _›] at hpc; cases hpc
      · cases hm with
        | sigterm => exact Or.inr ⟨h.running, h.pid, h.point⟩
        | disconnectStop hpc' =>
          obtain rfl := Pc.disconnect.inj (hpc'.symm.trans hpc)
          exact Or.inr ⟨h.running, h.pid, Or.inl rfl⟩
        | disconnect _ hor => rcases hor with hor | hor <;> simp [hb, hflag] at hor
        | throws hl => rw [hpc] at hl; cases hl
        | unlockThrow hl => rw [hpc] at hl; cases hl
        | _ => rw [‹p.mgr.pc = _›] at hpc; cases hpc

/-- `recv_message` is about to close the connection and to return. -/
structure Sparing (p : Proc) (evs : List Int) : Prop where
  point : p.mgr.pc = .disconnect evs
  spared : p.mgr.request.backend = true ∨ p.mgr.resultSendback = true

theorem Sparing.spares {evs : List Int} (h : Sparing p evs) : Spares E p evs := by
  intro run hrun pid hmem
  refine Machine.LeadsTo.not_mem (P := fun p => Sparing p evs)
    (B := fun ev => ∃ pid, ev = .mgr (.kill pid)) (fun p ev p' h hstep => ?_) h hrun _ hmem
    ⟨pid, rfl⟩
  obtain ⟨hpc, hor⟩ := h
  cases step_cases hstep with
  | exit => exact ⟨(by rintro ⟨_, hev⟩; cases hev), Or.inl ⟨hpc, hor⟩⟩
  | mgr hadm hm =>
    cases hm with
    | sigterm => exact ⟨(by rintro ⟨_, hev⟩; cases hev), Or.inl ⟨hpc, hor⟩⟩
    | disconnectStop _ hb hflag => rcases hor with hor | hor <;> simp [hb, hflag] at hor
    | disconnect hpc' =>
      obtain rfl := Pc.disconnect.inj (hpc'.symm.trans hpc)
      exact ⟨(by rintro ⟨_, hev⟩; cases hev), Or.inr rfl⟩
    | throws hl => rw [hpc] at hl; cases hl
    | unlockThrow hl => rw [hpc] at hl; cases hl
    | _ => rw [‹p.mgr.pc = _›] at hpc; cases hpc

/-- `recv_message` can return at once. -/
theorem Sparing.not_stops {evs : List Int} (h : Sparing p evs) (pid : Int) :
    ¬ Stops E p evs pid := by
  intro hstops
  have hspares := h.spares (E := E)
  have hrun : Machine.LeadsTo (step E) (Returned evs) p [.mgr (.epollDel p.mgr.connection)] := by
    refine ⟨fun hret => (by cases h.point.symm.trans hret),
      { p with
        mgr := { p.mgr with connection := -1, pc := .dispatch evs }
        hist := p.histAfter E (.epollDel p.mgr.connection) }, ?_, rfl⟩
    have hcond : (!p.mgr.request.backend && !p.mgr.resultSendback) = false := by
      rcases h.spared with hor | hor <;> simp [hor]
    simp [step, admits, Manager.step, Manager.codeStep, h.point, Manager.disconnect, hcond,
      childrenAfter]
  exact hspares _ hrun pid (hstops _ hrun)

/-- **Which commands the end of the connection stops.** Let `recv_message` find the
connection closed while the command `pid` is running. The command has been accepted with a
request `r`. It is stopped if it is a foreground one and spared if it is a backend one, if
and only if it is a backend one or the client has been waiting for it. -/
theorem disconnect_iff {fd : ℕ} {run : List Event} {evs : List Int} {pid : Int} {life : Life}
    (hrun : Machine.exec (Proc.step E) (start fd) run = some p)
    (hpc : p.mgr.pc = .disconnect evs) (hmem : (pid, life) ∈ p.children) :
    ∃ c r, p.hist.command = some c ∧ c.pid = pid ∧ accepted E c.data = some r ∧
      (DisconnectRule E p evs pid r ↔ (r.backend = false → Waiting E p.hist)) := by
  have h : Attending E p :=
    Machine.exec_invariant (fun _ _ _ hi hs => hi.step (step_cases hs)) (Attending.start fd) hrun
  obtain ⟨hrunning, -, hpid, -⟩ := h.base.core.mem_children hmem
  have hpids : pid ∈ p.pids := List.mem_map_of_mem hmem
  obtain ⟨data, done, hcmd⟩ := h.recorded.own pid hpids
  obtain ⟨r, hr⟩ := h.started pid hpids _ hcmd
  refine ⟨_, r, hcmd, rfl, hr.request, ?_⟩
  have hsetup : p.mgr.pc.setup = false := by rw [hpc]; rfl
  have hend : p.mgr.pc.ending = false := by rw [hpc]; rfl
  -- what `recv_message` looks at, in terms of the messages
  have hwaiting : Waiting E p.hist ↔
      p.mgr.request.backend = false ∧ p.mgr.resultSendback = false := by
    have hflag : p.mgr.resultSendback = false ↔ ∀ m ∈ p.hist.sent, m.isResult = false := by
      rw [h.attended.flag]
      simp
    have hlast := fun hf => h.attended.last hf (by rw [hpc]; rfl)
    constructor
    · rintro ⟨hsent, hlast'⟩
      have hf := hflag.mpr hsent
      exact ⟨(hlast hf).trans hlast', hf⟩
    · rintro ⟨hb, hf⟩
      exact ⟨hflag.mp hf, (hlast hf).symm.trans hb⟩
  -- a waiting client stops the command, which must be a foreground one
  by_cases hw : Waiting E p.hist
  · obtain ⟨hb, hf⟩ := hwaiting.mp hw
    refine iff_of_true ⟨fun _ => ?_, fun hback => ?_⟩ fun _ => hw
    · exact Stopping.stops ⟨hrunning, hpid.symm, Or.inr ⟨hpc, hb, hf⟩⟩
    · -- the client of a backend command has been told
      have htold := hr.told hback hsetup hend
      rw [hf] at htold
      cases htold
  · have hsparing : Sparing p evs := by
      refine ⟨hpc, ?_⟩
      by_contra hor
      push Not at hor
      exact hw (hwaiting.mpr ⟨by simpa using hor.1, by simpa using hor.2⟩)
    -- nobody waits: the command is spared, which is right for a backend one only
    constructor
    · intro hrule hfore
      exact absurd (hrule.foreground hfore) (hsparing.not_stops pid)
    · intro hfore
      exact ⟨fun hf => absurd (hfore hf) hw, fun _ => hsparing.spares⟩

/-- From `epoll_wait` to the point at which `recv_message` knows that the connection is
closed. -/
def closedLabels : List Label := [.epollWait (.ready [5]), .tau, .read none]

/-- The client of `/bin/ls` goes away while it runs: `/bin/ls` is stopped. -/
theorem disconnect_iff_ls :
    ∃ p r, Machine.exec (Proc.step Proto3.env) (start 5)
      ((lsLabels ++ closedLabels).map .mgr) = some p ∧
      r.backend = false ∧ DisconnectRule Proto3.env p [] 100 r := by
  obtain ⟨p, hrun, hp⟩ := Machine.exec_of_any
    (show (Machine.exec (Proc.step Proto3.env) (start 5)
      ((lsLabels ++ closedLabels).map .mgr)).any
      (fun p => p.mgr.pc == .disconnect [] && (100, .alive) ∈ p.children && p.hist.sent == [] &&
        !(lastRequest Proto3.env p.hist.received).backend &&
        p.hist.command.any (fun c => (accepted Proto3.env c.data).any (!·.backend))) = true by
      decide +kernel)
  simp only [Bool.and_eq_true, beq_iff_eq, decide_eq_true_eq, Bool.not_eq_true'] at hp
  obtain ⟨⟨⟨⟨hpc, hmem⟩, hsent⟩, hlast⟩, hcmd⟩ := hp
  obtain ⟨c, r, hc, -, hr, hiff⟩ := disconnect_iff hrun hpc hmem
  have hfore : r.backend = false := by simpa [hc, hr] using hcmd
  exact ⟨p, r, hrun, hfore, hiff.mpr fun _ => ⟨by simp [hsent], hlast⟩⟩

/-- LIST, then `/bin/ls`, and the client goes away while it runs: `/bin/ls` is not
stopped. -/
theorem not_disconnectRule :
    ¬ ∀ run p evs pid life c r, Machine.exec (Proc.step Proto3.env) (start 5) run = some p →
      p.mgr.pc = .disconnect evs → (pid, life) ∈ p.children → p.hist.command = some c →
      accepted Proto3.env c.data = some r → DisconnectRule Proto3.env p evs pid r := by
  intro hfollows
  obtain ⟨p, hrun, hp⟩ := Machine.exec_of_any
    (show (Machine.exec (Proc.step Proto3.env) (start 5)
      ((bootLabels ++ listLabels ++ loopLabels ++ receiveLabels lsData ++
        handleLabels lsData.bytes 100 ++ loopLabels ++ closedLabels).map .mgr)).any
      (fun p => p.mgr.pc == .disconnect [] && (100, .alive) ∈ p.children &&
        p.mgr.resultSendback &&
        p.hist.command.any (fun c => (accepted Proto3.env c.data).any (!·.backend))) = true by
      decide +kernel)
  simp only [Bool.and_eq_true, beq_iff_eq, decide_eq_true_eq] at hp
  obtain ⟨⟨⟨hpc, hmem⟩, hflag⟩, hcmd⟩ := hp
  obtain ⟨c, hc, hr⟩ := (Option.any_eq_true _ _).mp hcmd
  obtain ⟨r, hr, hfore⟩ := (Option.any_eq_true _ _).mp hr
  have hrule := hfollows _ p [] 100 .alive c r hrun hpc hmem hc hr
  have hsparing : Sparing p [] := ⟨hpc, Or.inr hflag⟩
  exact hsparing.not_stops 100 (hrule.foreground (by simpa using hfore))

end Proc
end Srun
