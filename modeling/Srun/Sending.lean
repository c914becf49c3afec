import Srun.Answers
import Srun.Encoding
import Srun.Framework.Observer

/-!
# What a call of `send_message` leaves on the connection

`send_message` calls `write` once, on a descriptor that does not block, and throws unless
the count is the length of the encoding. The bytes of a short write stay on the connection.

The observer of this module keeps, for each call that has ended, the encoding, the bytes
the connection has taken and how the call ended. `whole_iff` says that all calls are
all-or-nothing exactly as long as no write is cut short.
-/

open Wire

namespace Srun

/-- How a call of `send_message` ended. -/
inductive SendEnd
  | returned
  | threw
  /-- The process died of SIGPIPE: the client has closed the connection. -/
  | died
  deriving DecidableEq

/-- A call of `send_message`. -/
structure SendCall where
  /-- The encoding of the message; empty when there is none. -/
  encoding : Bytes
  /-- What the connection has taken of it. -/
  written : Bytes
  result : SendEnd

/-- Everything has been written when the call returned, and nothing when it threw. -/
def SendCall.Whole (c : SendCall) : Prop :=
  (c.result = .returned → c.written = c.encoding) ∧ (c.result = .threw → c.written = [])

/-- The bytes that the connection takes in a system call. -/
def Label.accepted : Label → Bytes
  | .write data (.wrote n) => data.take n
  | _ => []

/-- How a call of `send_message` has ended that leads to this point. -/
def Pc.sendEnd : Pc → SendEnd
  | .destroy _ _ => .threw
  | .gone _ => .died
  | _ => .returned

namespace Proc

/-- The calls of `send_message` that have ended, after a step. -/
def sendCalls (E : Env) (p : Proc) (ev : Event) (p' : Proc) (calls : List SendCall) :
    List SendCall :=
  match p.mgr.pc, ev with
  | .send _ _, .mgr (.sigterm _) => calls
  | .send m _, .mgr l => calls ++ [⟨(E.serialize m).getD [], l.accepted, p'.mgr.pc.sendEnd⟩]
  | _, _ => calls

variable {E : Env} {p p' : Proc} {ev : Event} {calls : List SendCall}

/-- Elsewhere no call ends. -/
theorem sendCalls_of_ne (h : ∀ m k, p.mgr.pc ≠ .send m k) : sendCalls E p ev p' calls = calls := by
  unfold sendCalls
  split
  · rfl
  · next hpc => exact absurd hpc (h _ _)
  · rfl

/-- Neither the signal handler nor the end of a child ends a call. -/
theorem sendCalls_of_silent (h : ∀ l, ev = .mgr l → ∃ t, l = .sigterm t) :
    sendCalls E p ev p' calls = calls := by
  unfold sendCalls
  split
  · rfl
  · next hne _ =>
    obtain ⟨t, rfl⟩ := h _ rfl
    exact absurd rfl (hne t)
  · rfl

/-- Every other step at `send_message` ends the call. -/
theorem sendCalls_send {m : Message} {k : SendRet} {l : Label} (hpc : p.mgr.pc = .send m k)
    (hl : ∀ t, l ≠ .sigterm t) :
    sendCalls E p (.mgr l) p' calls =
      calls ++ [⟨(E.serialize m).getD [], l.accepted, p'.mgr.pc.sendEnd⟩] := by
  unfold sendCalls
  rw [hpc]
  split
  · next heq => cases heq; exact absurd rfl (hl _)
  · next heq heq' => cases heq; cases heq'; rfl
  · next hne => exact absurd rfl (hne m k l rfl)

end Proc

/-- `write` reports no more than it was given. -/
def Event.counted : Event → Bool
  | .mgr (.write data (.wrote n)) => n ≤ data.length
  | _ => true

/-- No write is cut short: it takes everything or nothing. -/
def Event.uncut : Event → Bool
  | .mgr (.write data (.wrote n)) => n = 0 || data.length ≤ n
  | _ => true

/-- Only `send_message` writes on the connection. -/
theorem Event.uncut_of_throws {pc : Pc} {l : Label} (h : pc.throws l = true)
    (hpc : ∀ m k, pc ≠ .send m k) : Event.uncut (.mgr l) = true := by
  unfold Pc.throws at h
  split at h
  all_goals first | rfl | exact absurd rfl (hpc _ _) | cases h

theorem SendRet.sendEnd_pc (k : SendRet) : k.pc.sendEnd = .returned := by cases k <;> rfl

namespace Proc

variable {E : Env} {p p' : Proc} {ev : Event} {calls : List SendCall}

/-- One more call is all-or-nothing. -/
theorem forall_whole_append {c : SendCall} (h : ∀ c ∈ calls, c.Whole) :
    (∀ d ∈ calls ++ [c], d.Whole) ↔ c.Whole := by
  constructor
  · intro hall
    exact hall c (List.mem_append_right _ (List.mem_singleton_self c))
  · intro hc d hmem
    rcases List.mem_append.mp hmem with hmem | hmem
    · exact h d hmem
    · rwa [List.mem_singleton.mp hmem]

/-- A call that throws is all-or-nothing when the connection has taken nothing. -/
theorem whole_threw_iff {enc written : Bytes} :
    SendCall.Whole ⟨enc, written, .threw⟩ ↔ written = [] :=
  ⟨fun h => h.2 rfl, fun h => ⟨fun hr => (by cases hr), fun _ => h⟩⟩

/-- **One step.** What a step leaves on the connection is all-or-nothing unless it is a
write cut short. -/
theorem whole_step_iff (h : ∀ c ∈ calls, c.Whole) (hcount : ev.counted = true)
    (hstep : Proc.Step E p ev p') :
    (∀ c ∈ sendCalls E p ev p' calls, c.Whole) ↔ ev.uncut = true := by
  have hquiet : sendCalls E p ev p' calls = calls → ev.uncut = true →
      ((∀ c ∈ sendCalls E p ev p' calls, c.Whole) ↔ ev.uncut = true) := by
    intro hcalls huncut
    rw [hcalls]
    exact iff_of_true h huncut
  cases hstep with
  | exit => exact hquiet (sendCalls_of_silent fun l hl => (by cases hl)) rfl
  | @mgr l m' hadm hm =>
    cases hm with
    | sigterm t => exact hquiet (sendCalls_of_silent fun l hl => ⟨t, by cases hl; rfl⟩) rfl
    | throws hl =>
      by_cases hsend : ∃ m k, p.mgr.pc = .send m k
      · obtain ⟨m, k, hpc⟩ := hsend
        rw [hpc] at hl
        rw [sendCalls_send hpc (by rintro t rfl; cases hl), forall_whole_append h]
        refine whole_threw_iff.trans ?_
        cases l with
        | tau => exact iff_of_true rfl rfl
        | write data r =>
          cases r with
          | failed => exact iff_of_true rfl rfl
          | sigpipe => cases hl
          | wrote n =>
            -- the count is not the length, so the write is short when it is not zero
            have hne : n ≠ data.length := of_decide_eq_true hl
            have hle : n ≤ data.length := of_decide_eq_true hcount
            simp only [Label.accepted, List.take_eq_nil_iff, Event.uncut, Bool.or_eq_true,
              decide_eq_true_eq]
            constructor
            · rintro (hn | rfl)
              · exact Or.inl hn
              · exact Or.inr (Nat.zero_le n)
            · rintro (hn | hn)
              · exact Or.inl hn
              · exact absurd (Nat.le_antisymm hle hn) hne
        | _ => cases hl
      · have hne : ∀ m k, p.mgr.pc ≠ .send m k := fun m k hpc => hsend ⟨m, k, hpc⟩
        exact hquiet (sendCalls_of_ne hne) (Event.uncut_of_throws hl hne)
    | unlockThrow hpc =>
      refine hquiet (sendCalls_of_ne fun m k hsend => ?_) rfl
      rw [hsend] at hpc
      cases hpc
    -- the count was the length, so the whole encoding is out
    | @sent m k data hpc hdata hne =>
      rw [sendCalls_send hpc (by intro t ht; cases ht), forall_whole_append h]
      refine iff_of_true ⟨fun _ => ?_, fun hthrew => ?_⟩ (by simp [Event.uncut])
      · show data.take data.length = (E.serialize m).getD []
        rw [hdata, List.take_length, Option.getD_some]
      · have hend : k.pc.sendEnd = .threw := hthrew
        rw [SendRet.sendEnd_pc] at hend
        cases hend
    -- neither returned nor threw
    | sigpipe hpc =>
      rw [sendCalls_send hpc (by intro t ht; cases ht), forall_whole_append h]
      exact iff_of_true ⟨fun hr => (by cases hr), fun hr => (by cases hr)⟩ rfl
    | _ =>
      have hpc := ‹p.mgr.pc = _›
      exact hquiet (sendCalls_of_ne fun m k hsend => (by rw [hpc] at hsend; cases hsend)) rfl

/-- **All or nothing.** In a run in which `write` reports no more than it was given, every
call of `send_message` that has returned has written the whole encoding, and every call
that has thrown has written nothing, if and only if no write is cut short. -/
theorem whole_iff {fd : ℕ} {evs : List Event} {o : Machine.Observed Proc (List SendCall)}
    (hrun : Machine.exec (Machine.observe (Proc.step E) (sendCalls E)) ⟨start fd, []⟩ evs = some o)
    (hcount : ∀ ev ∈ evs, ev.counted = true) :
    Machine.Always (Machine.observe (Proc.step E) (sendCalls E)) (fun o => ∀ c ∈ o.seen, c.Whole)
        ⟨start fd, []⟩ evs ↔ ∀ ev ∈ evs, ev.uncut = true := by
  rw [← Machine.stepsMeet_iff_forall hrun]
  rw [← Machine.stepsMeet_iff_forall hrun] at hcount
  refine Machine.always_iff_stepsMeet (I := fun _ => True) (fun _ _ _ _ _ _ => trivial) ?_ trivial
    ?_ hcount hrun
  · intro o ev o' _ hwhole hev hstep
    obtain ⟨hproc, hseen⟩ := Machine.observe_eq_some.mp hstep
    rw [hseen]
    exact whole_step_iff hwhole hev (Proc.step_cases hproc)
  · intro c hc
    cases hc

/-- The answer to LIST takes two bytes, and the connection takes both. -/
theorem whole_iff_list :
    Machine.Always (Machine.observe (Proc.step Proto3.env) (sendCalls Proto3.env))
      (fun o => ∀ c ∈ o.seen, c.Whole) ⟨start 5, []⟩ ((bootLabels ++ listLabels).map .mgr) := by
  obtain ⟨o, hrun, -⟩ := Machine.exec_of_any
    (show (Machine.exec (Machine.observe (Proc.step Proto3.env) (sendCalls Proto3.env))
      ⟨start 5, []⟩ ((bootLabels ++ listLabels).map .mgr)).any (fun _ => true) = true by
        decide +kernel)
  exact (whole_iff hrun (by decide)).mpr (by decide)

/-! ### A result that is longer than the buffer of the socket

A command prints 400 KB and ends. The client has not begun to read when its manager sends
the result, and the connection takes as much as the kernel's buffer holds. -/

/-- A full buffer, 400 times. -/
def longBurst : Burst := List.replicate 400 Capture.fullChunk

theorem longBurst_ne_nil : longBurst ≠ [] := fun h => by cases h

theorem length_data_longBurst : longBurst.data.length = 409600 :=
  Capture.length_data_replicate 400

/-- There is something to be read from the command. -/
def unreadLabels : List Label := captureLabels ++ [.epollWait (.ready [8]), .tau]

/-- The manager reads `b`, and the command ends and is reaped. -/
def reapEvents (b : Burst) : List Event :=
  [.mgr (.receive (Output.offsets 0 b)), .exit 100 (.exited 0)] ++
    [.tau, .waitpid (some (100, .exited 0)), .flock .ex, .unlink 100, .flock .un, .rmdir 100,
      .waitpid none].map .mgr

/-- With the end of the pipe the command is over. -/
def overLabels : List Label :=
  [.tau, .tau, .epollWait (.ready [8]), .tau, .receive [], .tau, .waitpid none, .tau]

/-- `out` has been read from the command of `captureLabels`, and its pipe is open. -/
def Reading (out : Bytes) (p : Proc) : Prop :=
  p.mgr.out.mode = .msg ∧ p.mgr.out.pipefd0 = 8 ∧ p.mgr.out.str = out ∧
    p.mgr.out.over = false ∧ p.mgr.err.str = [] ∧ p.mgr.err.over = true ∧ p.mgr.response = {} ∧
    p.mgr.connection = 5 ∧ p.mgr.processStop = false ∧ p.mgr.resultSendback = false

instance (out : Bytes) (p : Proc) : Decidable (p.Reading out) :=
  inferInstanceAs (Decidable (_ ∧ _))

/-- The command runs and nothing of its output has been read. -/
def Unread (p : Proc) : Prop :=
  p.mgr.pc = .receive false [] ∧ p.mgr.clonepid = 100 ∧ p.mgr.childStatus = .procRunning ∧
    p.children = [(100, .alive)] ∧ p.Reading []

instance (p : Proc) : Decidable p.Unread := inferInstanceAs (Decidable (_ ∧ _))

/-- The command has been reaped. -/
def Reaped (out : Bytes) (p : Proc) : Prop :=
  p.mgr.pc = .loopCheck ∧ p.mgr.childStatus = .procExit ∧ p.children = [] ∧ p.Reading out

/-- The result of a command that has printed `out` and ended with 0. -/
def printedMessage (out : Bytes) : Message :=
  { method := .exe, response := some { outstr := out } }

theorem exec_unreadLabels :
    ∃ p, Machine.exec (Proc.step Proto3.env) (start 5) (unreadLabels.map .mgr) = some p ∧
      p.Unread := by
  obtain ⟨p, hrun, hp⟩ := Machine.exec_of_any
    (show (Machine.exec (Proc.step Proto3.env) (start 5) (unreadLabels.map .mgr)).any
      (fun p => decide p.Unread) = true by decide +kernel)
  exact ⟨p, hrun, of_decide_eq_true hp⟩

theorem exec_reapEvents {b : Burst} (h : p.Unread) (hne : b ≠ [])
    (hle : b.data.length ≤ 2 ^ 23) :
    ∃ p', Machine.exec (Proc.step E) p (reapEvents b) = some p' ∧ p'.Reaped b.data := by
  obtain ⟨hpc, hpid, hchild, hrun, hmode, hfd, hstr, hover, herr, herr', hresp, hrest⟩ := h
  have hrecv := Output.receive_msg_of_le (o := p.mgr.out) hmode hne (by rwa [hstr])
  rw [hstr, List.nil_append] at hrecv
  refine ⟨{ mgr := { p.mgr with
      out.str := b.data, clonepid := 0, childStatus := .procExit, pc := .loopCheck }
            hist := { p.hist with
      ended := some (.exited 0), registered := p.hist.registered.filter (· ≠ 100) } }, ?_,
    rfl, rfl, rfl, hmode, hfd, rfl, hover, herr, herr', hresp, hrest⟩
  simp [reapEvents, Machine.exec, Proc.step, Manager.step, Manager.codeStep,
    Manager.managerStart, Manager.dispatch, Manager.waitChild, Manager.reaped,
    Manager.clearEntry, Manager.clearClonepid, WaitRet.pc, admits, childrenAfter, histAfter,
    hrecv, hpc, hpid, hchild, hrun, hresp]

theorem exec_overLabels {out : Bytes} (h : p.Reaped out) :
    ∃ p', Machine.exec (Proc.step E) p (overLabels.map .mgr) = some p' ∧
      p'.mgr.pc = .send (printedMessage out) .result := by
  obtain ⟨hpc, hchild, hnone, hmode, hfd, hstr, hover, herr, herr', hresp, hconn, hstop, hsend⟩ := h
  refine ⟨{ p with
    mgr.out := { p.mgr.out with «over» := true, pipefd0 := -1, redirectFd := -1 }
    mgr.pc := .send (printedMessage out) .result }, ?_, rfl⟩
  simp [overLabels, Machine.exec, Proc.step, Manager.step, Manager.codeStep,
    Manager.managerStart, Manager.dispatch, Manager.waitChild, Manager.loopCheck,
    Manager.execOver, Manager.epollReturn, WaitRet.pc, admits, childrenAfter, histAfter,
    Manager.resultMessage, printedMessage, Output.receive_msg_nil, hpc, hmode, hfd, hstr, hover,
    herr, herr', hchild, hresp, hconn, hstop, hsend, hnone]

/-- What a command prints is in the encoding of its result. -/
theorem serialize_printedMessage {out : Bytes} (hne : out ≠ []) (hle : out.length ≤ 2 ^ 23) :
    ∃ bs, Proto3.serialize (printedMessage out) = some bs ∧ out.length ≤ bs.length := by
  have hfits := (show ({ out.str := out } : Manager).Captured from
    ⟨by simp; omega, by simp, rfl⟩).fits .proto3
  rw [Schema.records_ofMessage] at hfits
  refine ⟨_, Proto3.serialize_eq_some_iff.mpr ⟨rfl, hfits⟩, ?_⟩
  have hmem : (⟨3, .len out⟩ : Record) ∈ Proto3.responseRecords { outstr := out } := by
    simp [Proto3.responseRecords, Proto3.textField, hne]
  calc out.length
    _ ≤ (Record.put ⟨3, .len out⟩).length := by
        simp only [Record.put, Payload.put, List.length_append]
        omega
    _ ≤ (putRecords (Proto3.responseRecords { outstr := out })).length :=
        put_length_le hmem
    _ ≤ _ := Proto3.putRecords_length_le (Proto3.subField_mem_response rfl)

/-- A write that is cut short is an exception. -/
theorem step_cut {m : Message} {k : SendRet} {bs : Bytes} {n : ℕ}
    (hpc : p.mgr.pc = .send m k) (hbs : E.serialize m = some bs) (hn : n < bs.length) :
    Proc.step E p (.mgr (.write bs (.wrote n))) = some { p with mgr := p.mgr.raise } := by
  have hne : bs ≠ [] := List.ne_nil_of_length_pos (Nat.zero_lt_of_lt hn)
  simp [Proc.step, admits, Manager.step, Manager.codeStep, hpc, Manager.sendMessage, hbs, hne,
    hn.ne, childrenAfter, histAfter]

/-- Every run has its calls. -/
theorem exec_sendCalls {E : Env} {p p' : Proc} {evs : List Event}
    (h : Machine.exec (Proc.step E) p evs = some p') :
    ∃ calls, Machine.exec (Machine.observe (Proc.step E) (sendCalls E)) ⟨p, []⟩ evs =
      some ⟨p', calls⟩ :=
  Machine.exec_observe [] h

/-- The result of a command that has printed 400 KB, of which the connection takes 212992
bytes: the call throws and these bytes stay. -/
theorem not_whole :
    ¬ ∀ evs o, Machine.exec (Machine.observe (Proc.step Proto3.env) (sendCalls Proto3.env))
        ⟨start 5, []⟩ evs = some o →
      (∀ ev ∈ evs, ev.counted = true) → ∀ c ∈ o.seen, c.Whole := by
  intro hwhole
  have hlen := length_data_longBurst
  obtain ⟨p, hrun, hp⟩ := exec_unreadLabels
  obtain ⟨q, hread, hq⟩ := exec_reapEvents hp longBurst_ne_nil (by rw [hlen]; norm_num)
  obtain ⟨p', hover, hpc⟩ := exec_overLabels hq
  obtain ⟨bs, hbs, hlong⟩ := serialize_printedMessage
    (fun h => longBurst_ne_nil (Burst.data_eq_nil.mp h)) (by rw [hlen]; norm_num)
  rw [hlen] at hlong
  have hcut : 212992 < bs.length := Nat.lt_of_lt_of_le (by norm_num) hlong
  have hexec : Machine.exec (Proc.step Proto3.env) (start 5)
      (unreadLabels.map .mgr ++ reapEvents longBurst ++ overLabels.map .mgr) = some p' := by
    rw [Machine.exec_append, Machine.exec_append, hrun, Option.bind_some, hread,
      Option.bind_some, hover]
  obtain ⟨calls, hobs⟩ := exec_sendCalls hexec
  -- the call throws with half of the result written
  rw [← Proto3.env_serialize] at hbs
  have hstep : Machine.observe (Proc.step Proto3.env) (sendCalls Proto3.env) ⟨p', calls⟩
      (.mgr (.write bs (.wrote 212992))) =
        some ⟨{ p' with mgr := p'.mgr.raise }, calls ++ [⟨bs, bs.take 212992, .threw⟩]⟩ := by
    refine Machine.observe_eq_some.mpr ⟨step_cut hpc hbs hcut, ?_⟩
    rw [sendCalls_send hpc fun t ht => (by cases ht), hbs]
    rfl
  have hcounted : ∀ ev ∈ unreadLabels.map .mgr ++ reapEvents longBurst ++
      overLabels.map .mgr ++ [.mgr (.write bs (.wrote 212992))], ev.counted = true := by
    simp only [List.forall_mem_append, List.forall_mem_singleton]
    refine ⟨⟨⟨by decide, ?_⟩, by decide⟩, decide_eq_true hcut.le⟩
    simp [reapEvents, Event.counted]
  have hnone : bs.take 212992 = [] :=
    (hwhole _ _ (Machine.exec_concat_eq_some.mpr ⟨_, hobs, hstep⟩) hcounted _
      (List.mem_append_right _ (List.mem_singleton_self _))).2 rfl
  have hlength : (bs.take 212992).length = 212992 := List.length_take_of_le hcut.le
  rw [hnone] at hlength
  cases hlength

end Proc
end Srun
