import Srun.Capture
import Srun.Framing
import Srun.Schemas

/-!
# Outputs in an encoding

The result of a command has what the command printed in two fields of type `string`. In
proto3 the contents of such a field have to be UTF-8 text, and the parser of the client
refuses the whole message otherwise. Any byte can be printed, and the cut at 8 MB
may leave half of a character.

`result_survives_iff` says that this is all that can go wrong: a result is parsed as it was
built if and only if both outputs are text. Under proto2 it always is.
-/

namespace Srun

open Wire Proto3

namespace Output

theorem load_str (o : Output) (mode : OutMode) (path : String) (backend found : Bool)
    (pipe : Option (Int × Int)) : (o.load mode path backend found pipe).1.str = o.str := by
  have hopen (o : Output) : (o.openPipe pipe).1.str = o.str := by cases pipe <;> rfl
  unfold load
  cases mode with
  | msg => cases backend <;> simp [hopen]
  | file => cases found <;> simp [hopen]
  | _ => rfl

theorem bind_str (o : Output) (fd : Int) (added : Bool) : (o.bind fd added).1.str = o.str := by
  simp only [bind]
  split_ifs <;> rfl

/-- No call of `Output::receive` goes over 8 MB by a buffer. -/
theorem length_receive_lt {o : Output} (h : o.str.length < 2 ^ 23 + 1024)
    (reads : List (Chunk × Int)) : (o.receive reads).1.str.length < 2 ^ 23 + 1024 := by
  -- the loop stops with the buffer that crosses the bound; the other modes store nothing
  have hloop := length_receiveMsg_lt h 0 (reads.map Prod.fst)
  unfold receive
  cases o.mode with
  | msg =>
    simp only
    split <;> exact hloop
  | _ =>
    simp only
    split <;> exact h

end Output

namespace Manager

/-- What the manager has to report has been captured, and it has a stat of the schema. -/
structure Captured (s : Manager) : Prop where
  out : s.out.str.length < 2 ^ 23 + 1024
  err : s.err.str.length < 2 ^ 23 + 1024
  stat : s.response.stat.named = true

variable {E : Env} {s s' : Manager} {l : Label}

theorem Captured.of_eq (h : s.Captured) (hout : s'.out.str = s.out.str)
    (herr : s'.err.str = s.err.str) (hstat : s'.response.stat.named = true) : s'.Captured :=
  ⟨hout ▸ h.out, herr ▸ h.err, hstat⟩

theorem reaped_stat_named (s : Manager) (st : WaitStatus) (k : WaitRet) :
    (s.reaped st k).response.stat.named = true := by
  have hclear (t : Manager) : (t.clearEntry k).response = t.response :=
    clearEntry_field Manager.response fun _ _ => rfl
  cases st with
  | signaled sig =>
    simp only [reaped]
    split
    · rfl
    · rw [hclear]
      rfl
  | _ =>
    simp only [reaped]
    rw [hclear]
    rfl

theorem Captured.step (h : s.Captured) (hstep : Step E s l s') : s'.Captured := by
  cases hstep with
  | receiveOut reads hpc => exact ⟨Output.length_receive_lt h.out reads, h.err, h.stat⟩
  | receiveErr reads hpc => exact ⟨h.out, Output.length_receive_lt h.err reads, h.stat⟩
  -- TIMEOUT is a stat of the schema
  | timerEvent hpc => exact ⟨h.out, h.err, rfl⟩
  | reap hpc =>
    refine h.of_eq (congrArg Output.str ?_) (congrArg Output.str ?_) (reaped_stat_named s _ _)
    · exact reaped_field Manager.out fun _ _ _ _ => rfl
    · exact reaped_field Manager.err fun _ _ _ _ => rfl
  | argsSurvive hpc =>
    refine h.of_eq ?_ ?_ ?_
    · exact clearEntry_field (fun s => s.out.str) fun _ _ => rfl
    · exact clearEntry_field (fun s => s.err.str) fun _ _ => rfl
    · exact (clearEntry_field (fun s => s.response.stat.named) fun _ _ => rfl).trans h.stat
  | received hpc hdata hm =>
    refine h.of_eq ?_ ?_ ?_
    · exact received_field (fun s => s.out.str) fun _ _ _ => rfl
    · exact received_field (fun s => s.err.str) fun _ _ _ => rfl
    · exact (received_field (fun s => s.response.stat.named) fun _ _ _ => rfl).trans h.stat
  -- neither `load` nor `bind` touches what has been captured
  | loadOut hpc ho | loadOutFail hpc ho =>
    refine h.of_eq ?_ rfl h.stat
    exact (congrArg (·.1.str) ho).symm.trans (Output.load_str ..)
  | loadErr hpc ho | loadErrFail hpc ho =>
    refine h.of_eq rfl ?_ h.stat
    exact (congrArg (·.1.str) ho).symm.trans (Output.load_str ..)
  | bindOut hpc ho | bindOutFail hpc ho =>
    refine h.of_eq ?_ rfl h.stat
    exact (congrArg (·.1.str) ho).symm.trans (Output.bind_str ..)
  | bindErr hpc ho | bindErrFail hpc ho =>
    refine h.of_eq rfl ?_ h.stat
    exact (congrArg (·.1.str) ho).symm.trans (Output.bind_str ..)
  | _ => exact ⟨h.out, h.err, h.stat⟩

end Manager

/-- Every manager process has captured what it has to report. -/
theorem Proc.captured_of_reachable {E : Env} {fd : ℕ} {p : Proc}
    (h : Machine.Reachable (Proc.step E) (Proc.start fd) p) : p.mgr.Captured := by
  refine Machine.Reachable.invariant (I := fun p : Proc => p.mgr.Captured) ?_ ?_ h
  · intro p ev p' hp hstep
    cases Proc.step_cases hstep with
    | mgr hadm hm => exact hp.step hm
    | exit hc hst => exact hp
  · exact ⟨by simp [Proc.start], by simp [Proc.start], rfl⟩

/-! ### Sizes -/

namespace Schema

theorem length_field_le {α : Type} {num : ℕ} {enc : α → Payload} {v : Option α} {n : ℕ}
    (h : ∀ a ∈ v, (Record.put ⟨num, enc a⟩).length ≤ n) :
    (putRecords (field num enc v)).length ≤ n := by
  cases v with
  | none => exact Nat.zero_le n
  | some a => simpa [putRecords, field] using h a rfl

theorem length_field_len_le (num : ℕ) (v : Option Bytes) :
    (putRecords (field num .len v)).length ≤ 20 + (v.getD []).length := by
  apply length_field_le
  rintro bs rfl
  exact Record.length_put_len_le num bs

theorem length_field_int_le {α : Type} (num : ℕ) (value : α → Int) (v : Option α) :
    (putRecords (field num (fun a => int (value a)) v)).length ≤ 20 :=
  length_field_le fun _ _ => Record.length_put_varint_le num _

theorem length_responseRecords_le (r : Response) :
    (putRecords (responseRecords r)).length ≤
      80 + (r.outstr.getD []).length + (r.errstr.getD []).length := by
  have h1 := length_field_int_le 1 (fun m : Stat => m.toInt32.toInt) r.stat
  have h2 := length_field_int_le 2 Int32.toInt r.retval
  have h3 := length_field_len_le 3 r.outstr
  have h4 := length_field_len_le 4 r.errstr
  simp only [responseRecords, putRecords_append, List.length_append]
  omega

/-- A message that consists of a method and a response. -/
theorem length_messageRecords_le (method : Option Method) (r : Response) :
    (putRecords (messageRecords { method := method, response := some r })).length ≤
      120 + (r.outstr.getD []).length + (r.errstr.getD []).length := by
  have h1 := length_field_int_le 1 (fun m : Method => m.toInt32.toInt) method
  have h2 := Record.length_put_len_le 2 (putRecords (responseRecords r))
  have hr := length_responseRecords_le r
  have heq : putRecords (messageRecords { method := method, response := some r }) =
      putRecords (field 1 (fun m : Method => int m.toInt32.toInt) method)
        ++ Record.put ⟨2, .len (putRecords (responseRecords r))⟩ := by
    simp [messageRecords, putRecords, subField]
  rw [heq, List.length_append]
  omega

end Schema

/-! ### The result of a command -/

namespace Manager

variable {s : Manager}

/-- `send_message` writes the result of the command, and `Srunc::recvMessage` reads from it
the same stat, the same retval and the same outputs. -/
def Survives (E : Env) (s : Manager) : Prop :=
  ∃ bs m, E.serialize s.resultMessage = some bs ∧ Srun.recvMessage E bs = some m ∧
    m.method = .exe ∧ m.getResponse = { s.response with outstr := s.out.str, errstr := s.err.str }

/-- The response of the result. -/
theorem resultMessage_response :
    s.resultMessage.response =
      some { s.response with outstr := s.out.str, errstr := s.err.str } := rfl

/-- A result does not come near 2 GB, under either schema. -/
theorem Captured.fits (h : s.Captured) (q : Schema) :
    Schema.Fits (Schema.messageRecords ((Schema.ofMessage s.resultMessage).written q)) := by
  have hout := h.out
  have herr := h.err
  -- a method and a response, and in it two outputs of 8 MB and a buffer each
  have hle (method : Option Method) (r : Schema.Response) (hr : r.outstr.getD [] = s.out.str)
      (hr' : r.errstr.getD [] = s.err.str) :
      Schema.Fits (Schema.messageRecords { method := method, response := some r }) := by
    have := Schema.length_messageRecords_le method r
    rw [hr, hr'] at this
    unfold Schema.Fits
    omega
  cases q with
  | proto2 => exact hle _ _ rfl rfl
  | proto3 =>
    exact hle _ _ (Schema.nonzero_getD (v := some s.out.str))
      (Schema.nonzero_getD (v := some s.err.str))

/-- Under proto3, text survives and nothing else. -/
theorem survives_iff (h : s.Captured) :
    s.Survives Proto3.env ↔ (ofText s.out.str).isSome ∧ (ofText s.err.str).isSome := by
  have hfits := h.fits .proto3
  rw [Schema.records_ofMessage] at hfits
  have hser := serialize_eq_some_iff.mpr ⟨rfl, hfits⟩
  constructor
  · rintro ⟨bs, m, hbs, hm, -⟩
    by_contra htext
    -- an output that is no text fails the parser
    have hparse := parse_of_recvMessage hm
    rw [env_serialize] at hbs
    rw [env_parse, parse_eq_none hbs resultMessage_response htext] at hparse
    cases hparse
  · intro htext
    have hparse := parse_serialize hser fun r hr => by
      obtain rfl := Option.some.inj hr
      exact htext
    have hne : putRecords (messageRecords s.resultMessage) ≠ [] :=
      env_writesBytes (by rw [env_serialize]; exact hser)
        (by simp [Message.fieldCount, resultMessage])
    refine ⟨_, s.resultMessage, by rw [env_serialize]; exact hser, ?_, rfl, rfl⟩
    rw [Srun.recvMessage, if_neg hne, env_parse]
    exact hparse

/-- Under proto2, any outputs survive. -/
theorem survives_proto2 (h : s.Captured) :
    ∃ bs, Schema.serialize .proto2 (Schema.ofMessage s.resultMessage) = some bs ∧ bs ≠ [] ∧
      Schema.parse .proto2 bs = some (Schema.ofMessage s.resultMessage) := by
  obtain ⟨bs, hser⟩ : ∃ bs, Schema.serialize .proto2 (Schema.ofMessage s.resultMessage) = some bs :=
    ⟨_, Schema.serialize_eq_some_iff.mpr ⟨h.fits .proto2, rfl⟩⟩
  have hkept : (Schema.ofMessage s.resultMessage).kept .proto2 =
      Schema.ofMessage s.resultMessage := by
    simp [Schema.Message.kept, Schema.Response.kept, Schema.ofMessage, Schema.ofResponse,
      resultMessage, Schema.keeps, Option.filter, h.stat, Method.named]
  have hparse : Schema.parse .proto2 bs = some (Schema.ofMessage s.resultMessage) := by
    rw [Schema.parse_serialize hser fun _ _ => rfl, Option.filter_eq_some_iff]
    exact ⟨congrArg some hkept, rfl⟩
  refine ⟨bs, hser, ?_, hparse⟩
  -- no bytes have no method
  rintro rfl
  rw [show Schema.parse .proto2 [] = none by decide] at hparse
  cases hparse

/-- **Outputs in an encoding.** For any stat and retval and any outputs that have been
captured, in the build with proto3 the result of the command reaches the client as it is if
and only if both outputs are UTF-8 text; in the build with proto2 it always does. -/
theorem result_survives_iff (h : s.Captured) :
    (s.Survives Proto3.env ↔ (ofText s.out.str).isSome ∧ (ofText s.err.str).isSome) ∧
      ∃ bs, Schema.serialize .proto2 (Schema.ofMessage s.resultMessage) = some bs ∧ bs ≠ [] ∧
        Schema.parse .proto2 bs = some (Schema.ofMessage s.resultMessage) :=
  ⟨survives_iff h, survives_proto2 h⟩

/-- A command that printed a text of three bytes and ended with 1. -/
theorem result_survives_iff_hi :
    ({ connection := 5, response.retval := 1, out.str := [104, 105, 10] } : Manager).Survives
      Proto3.env :=
  (result_survives_iff ⟨by decide, by decide, rfl⟩).1.mpr ⟨by decide, by decide⟩

end Manager

namespace Proc

/-- An EXE message for `/bin/ls` with outmode MSG. -/
def printData : Chunk where
  bytes := [0x1a, 11, 0x0a, 7, 0x2f, 0x62, 0x69, 0x6e, 0x2f, 0x6c, 0x73, 0x30, 1]
  pos := by decide
  le := by decide

/-- The manager runs the command, reads its output from descriptor 8, and waits. -/
def captureLabels : List Label :=
  bootLabels ++ receiveLabels printData ++
    [.tau, .lookup (some fun _ => .file), .load true (some (8, 9)), .load true none, .clone 100,
      .createLeaf 100 true, .writeCgroup 100 .memlimit "100M" .complete,
      .memswExists 100 (some false), .writeCgroup 100 .procs "100" .complete,
      .writeCgroup 100 .notify "1" .complete, .flock .ex, .regCreate 100 true,
      .regWrite 100 printData.bytes .complete, .flock .un, .bind (-1) true, .bind (-1) true,
      .timerfdCreate 7, .timerfdSettime 600 true, .epollAdd 7 true, .tau] ++ loopLabels

/-- The command prints the byte 255 and closes its output. -/
def printLabels : List Label :=
  captureLabels ++
    [.epollWait (.ready [8]), .tau, .receive [(⟨[255], by decide, by decide⟩, -1)]] ++
    loopLabels ++ [.epollWait (.ready [8]), .tau, .receive []] ++ loopLabels

/-- The command ends and the manager is about to send the result. -/
def printEvents : List Event :=
  printLabels.map .mgr ++ lsEndEvents (.exited 0) ++ [.mgr .tau]

/-- A command that prints the byte 255 has a result that the client does not get. -/
theorem result_lost :
    ∃ p, Machine.Reachable (Proc.step Proto3.env) (start 5) p ∧
      p.mgr.pc = .send p.mgr.resultMessage .result ∧ p.mgr.out.str = [255] ∧
      ¬ p.mgr.Survives Proto3.env := by
  obtain ⟨p, hrun, hp⟩ := Machine.exec_of_any
    (show (Machine.exec (Proc.step Proto3.env) (start 5) printEvents).any
      (fun p => p.mgr.pc == .send p.mgr.resultMessage .result && p.mgr.out.str == [255]) = true by
      decide +kernel)
  rw [Bool.and_eq_true, beq_iff_eq, beq_iff_eq] at hp
  have hreach : Machine.Reachable (Proc.step Proto3.env) (start 5) p := ⟨printEvents, hrun⟩
  refine ⟨p, hreach, hp.1, hp.2, ?_⟩
  rw [Manager.survives_iff (captured_of_reachable hreach), hp.2]
  rintro ⟨hout, -⟩
  exact absurd hout (by decide)

end Proc

end Srun
