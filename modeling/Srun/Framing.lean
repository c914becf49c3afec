import Srun.Proc
import Srun.Proto3

/-!
# Messages and reads

The socket is a byte stream and a message has no length prefix. Both readers,
`Srunc::recvMessage` and `recv_message`, take what is there until the socket is
empty (`Burst`) for one message. How the stream falls into bursts is a matter of
timing.

`framing_iff` says what timing they need. Parsing puts together all records of a
burst, so a burst that holds two messages is read as one, without an error. When
every message comes out, every burst has as many records as its message, hence
(`Wire.eq_of_atLeast`) the bursts are the encodings of the messages.
-/

namespace Srun

/-- `Srunc::recvMessage`, on the data read until the socket is empty. -/
def recvMessage (E : Env) (data : Bytes) : Option Message :=
  if data = [] then none else E.parse data

/-- `bs` are the encodings of `ms`, as `send_message` and `Srunc::sendMessage` write
them. -/
def InFlight (E : Env) (ms : List Message) (bs : List Bytes) : Prop :=
  List.Forall₂ (fun m b => E.serialize m = some b) ms bs

variable {E : Env}

theorem InFlight.concat {ms : List Message} {bs : List Bytes} {m : Message} {b : Bytes}
    (h : InFlight E ms bs) (hb : E.serialize m = some b) : InFlight E (ms ++ [m]) (bs ++ [b]) :=
  List.rel_append h (.cons hb .nil)

/-- Reading the first message: the first encoding gives it or nothing, and the others are still
in flight. -/
theorem InFlight.parse (hE : E.ParsesBack) {ms : List Message} {b : Bytes} {bs : List Bytes}
    (h : InFlight E ms (b :: bs)) :
    ∃ m ms', ms = m :: ms' ∧ InFlight E ms' bs ∧ ∀ m', E.parse b = some m' → m' = m := by
  cases h with
  | cons hb hbs => exact ⟨_, _, rfl, hbs, fun _ hm' => hE hb hm'⟩

theorem parse_of_recvMessage {data : Bytes} {m : Message} (h : recvMessage E data = some m) :
    E.parse data = some m := by
  unfold recvMessage at h
  split at h
  · cases h
  · exact h

/-! ### The manager's reader -/

namespace Proc

/-- The events of a manager that reads a burst: its chunks, and the read that finds the socket
empty. -/
def readEvents (b : Burst) : List Event :=
  b.map (fun c => .mgr (.read (some c))) ++ [.mgr (.read none)]

variable {p : Proc}

theorem step_readChunk {c : Chunk} {data : Bytes} {evs : List Int}
    (hpc : p.mgr.pc = .recv data evs) :
    p.step E (.mgr (.read (some c))) =
      some { p with mgr := p.mgr.goto (.recv (data ++ c.bytes) evs) } := by
  simp [step, admits, Manager.step, Manager.codeStep, hpc, Manager.recvMessage, childrenAfter,
    histAfter]

/-- The read loop of `recv_message` collects the chunks. -/
theorem exec_readChunks {b : Burst} {data : Bytes} {evs : List Int}
    (hpc : p.mgr.pc = .recv data evs) :
    Machine.exec (Proc.step E) p (b.map fun c => .mgr (.read (some c))) =
      some { p with mgr := p.mgr.goto (.recv (data ++ b.data) evs) } := by
  induction b generalizing p data with
  | nil =>
    rw [List.map_nil, Machine.exec_nil, Burst.data, List.flatMap_nil, List.append_nil, ← hpc]
    rfl
  -- the chunk goes behind what has been read, and the loop goes on
  | cons c b ih =>
    rw [List.map_cons, Machine.exec_cons, step_readChunk hpc, Option.bind_some, ih rfl]
    simp [Burst.data]

/-- The manager reads the burst `b` and gets `m` from it. -/
def Receives (E : Env) (p : Proc) (b : Burst) (m : Message) : Prop :=
  ∃ p', Machine.exec (Proc.step E) p (readEvents b) = some p' ∧
    p'.hist.received = p.hist.received ++ [m]

/-- `recv_message` gets from a burst what `Srunc::recvMessage` would. -/
theorem receives_iff {b : Burst} {m : Message} {evs : List Int} (hpc : p.mgr.pc = .recv [] evs) :
    Receives E p b m ↔ recvMessage E b.data = some m := by
  unfold Receives readEvents recvMessage
  rw [Machine.exec_append, exec_readChunks hpc, Option.bind_some, List.nil_append]
  by_cases hdata : b.data = []
  -- nothing has been read, which is an error
  · simp [Machine.exec_cons, step, admits, Manager.step, Manager.codeStep, Manager.recvMessage,
      histAfter, hdata]
  · cases hm : E.parse b.data <;>
      simp [Machine.exec_cons, step, admits, Manager.step, Manager.codeStep, Manager.recvMessage,
        histAfter, hdata, hm]

end Proc

/-! ### Framing -/

/-- The bursts from which the messages come out have at least their records. -/
theorem atLeast_of_recv (hE : E.ByRecords) {msgs : List Message} {writes : List Bytes}
    {bursts : List Burst} (hwrites : InFlight E msgs writes)
    (h : List.Forall₂ (fun b m => recvMessage E b.data = some m) bursts msgs) :
    List.Forall₂ Wire.AtLeast (bursts.map Burst.data) writes := by
  -- one message for each burst and for each write
  induction h generalizing writes with
  | nil =>
    cases hwrites
    exact .nil
  | cons hb _ ih =>
    cases hwrites with
    | cons hw hws =>
      obtain ⟨ra, ha, hle⟩ := hE.parse_splits (parse_of_recvMessage hb)
      obtain ⟨rb, hb, hlen⟩ := hE.serialize_splits hw
      exact .cons ⟨ra, rb, ha, hb, hlen ▸ hle⟩ (ih hws)

/-- From its encoding each message comes out. -/
theorem recv_of_eq {msgs : List Message} {bursts : List Burst}
    (hwrites : InFlight E msgs (bursts.map Burst.data)) (hne : ∀ b ∈ bursts, b.data ≠ [])
    (hparse : ∀ m ∈ msgs, ∀ b, E.serialize m = some b → E.parse b = some m) :
    List.Forall₂ (fun b m => recvMessage E b.data = some m) bursts msgs := by
  induction bursts generalizing msgs with
  | nil =>
    cases hwrites
    exact .nil
  | cons b bursts ih =>
    cases hwrites with
    | cons hw hws =>
      -- `recvMessage` refuses an empty burst only
      refine .cons ?_ (ih hws (fun b' hb' => hne b' (List.mem_cons_of_mem _ hb'))
        fun m hm => hparse m (List.mem_cons_of_mem _ hm))
      rw [recvMessage, if_neg (hne b List.mem_cons_self)]
      exact hparse _ List.mem_cons_self _ hw

/-- **What timing the readers need.** Let a stream consist of the encodings of some
messages, each of which is parsed back on its own, and let it be read in bursts. The
client's successive results are these messages if and only if each burst is the
encoding of one message; and so it is for the manager, whatever its state at each
call of `recv_message`. -/
theorem framing_iff (hE : E.ByRecords) {msgs : List Message} {writes : List Bytes}
    {bursts : List Burst} (hwrites : InFlight E msgs writes) (hne : ∀ b ∈ writes, b ≠ [])
    (hparse : ∀ m ∈ msgs, ∀ b, E.serialize m = some b → E.parse b = some m)
    (hcut : (bursts.map Burst.data).flatten = writes.flatten) :
    (bursts.map (fun b => recvMessage E b.data) = msgs.map some ↔
      bursts.map Burst.data = writes) ∧
    ∀ p : Proc, ∀ evs, p.mgr.pc = .recv [] evs →
      (List.Forall₂ (Proc.Receives E p) bursts msgs ↔ bursts.map Burst.data = writes) := by
  have hiff : List.Forall₂ (fun b m => recvMessage E b.data = some m) bursts msgs ↔
      bursts.map Burst.data = writes := by
    -- as many bursts as messages, and no burst with fewer records than its message: no record is
    -- left over for a burst to have more
    refine ⟨fun h => Wire.eq_of_atLeast (atLeast_of_recv hE hwrites h) hcut, ?_⟩
    rintro rfl
    exact recv_of_eq hwrites (fun b hb => hne _ (List.mem_map_of_mem hb)) hparse
  -- both readers take a burst for one message, so that the manager's needs no proof of its own
  refine ⟨?_, fun p evs hpc => ?_⟩
  · rw [← hiff, ← List.forall₂_eq_eq_eq, List.forall₂_map_left_iff, List.forall₂_map_right_iff]
  · rw [← hiff]
    exact ⟨fun h => h.imp fun _ _ => (Proc.receives_iff hpc).mp,
      fun h => h.imp fun _ _ => (Proc.receives_iff hpc).mpr⟩

/-- A heartbeat and the result of `/bin/ls` are on the stream. -/
theorem inFlight_heartbeat :
    InFlight Proto3.env [{ method := .syn }, { response := some {} }] [[8, 1], [0x12, 0]] := by
  refine .cons ?_ (.cons ?_ .nil) <;>
    (rw [Proto3.env_serialize]; decide +kernel)

/-- When the reader wakes for each of them, also with the heartbeat in two pieces, it
gets both. -/
theorem framing_iff_heartbeat :
    let bursts : List Burst :=
      [[⟨[8], by decide, by decide⟩, ⟨[1], by decide, by decide⟩],
       [⟨[0x12, 0], by decide, by decide⟩]]
    bursts.map (fun b => recvMessage Proto3.env b.data) =
      [some { method := .syn }, some { response := some {} }] := by
  refine (framing_iff Proto3.env_byRecords inFlight_heartbeat (by decide) ?_ rfl).1.mpr rfl
  intro m hm b hb
  rw [Proto3.env_serialize] at hb
  rw [Proto3.env_parse]
  refine Proto3.parse_serialize hb fun r hr => ?_
  have hr : r = {} := by
    rcases List.mem_cons.mp hm with rfl | hm
    · cases hr
    · rw [List.mem_singleton.mp hm] at hr
      exact (Option.mem_some_iff.mp hr).symm
  rw [hr]
  exact ⟨by decide, by decide⟩

/-- `/bin/ls` ends just after a heartbeat, and the client, which has not been awake
between, reads both messages at once: it gets a heartbeat, and no result. -/
theorem framing_fails :
    ¬ ∀ evs p writes (bursts : List Burst),
      Machine.exec (Proc.step Proto3.env) (Proc.start 5) evs = some p →
      InFlight Proto3.env p.hist.sent writes →
      (bursts.map Burst.data).flatten = writes.flatten →
      bursts.map (fun b => recvMessage Proto3.env b.data) = p.hist.sent.map some := by
  intro hall
  -- the heartbeat is on the stream when SIGCHLD arrives, and the result follows it
  obtain ⟨p, hrun, hp⟩ := Machine.exec_of_any
    (show (Machine.exec (Proc.step Proto3.env) (Proc.start 5)
      ((Proc.lsLabels ++ Label.epollWait .timeout :: .write [8, 1] (.wrote 2) ::
          Proc.loopLabels).map .mgr ++ Proc.lsEndEvents (.exited 0) ++
        [Label.tau, .write [0x12, 0] (.wrote 2)].map .mgr)).any
      (fun p => p.hist.sent == [{ method := .syn }, { response := some {} }]) = true
      by decide +kernel)
  rw [beq_iff_eq] at hp
  have := hall _ p [[8, 1], [0x12, 0]] [[⟨[8, 1, 0x12, 0], by decide, by decide⟩]] hrun
    (hp ▸ inFlight_heartbeat) rfl
  -- one result cannot be two messages
  simp [hp] at this

end Srun
