import Srun.Session

/-!
# Srunc::run

The client call of `srunc.cpp` step by step: the output files are created, the message is
built, and `exec` connects, writes and waits for the answer. The result of every system call
is open.

The functions throw, and what becomes of an exception depends on where it is thrown. `exec`
catches it and returns `false`. The two calls of `create777` are in `run` itself, which is
`noexcept` and has no handler, so that an exception there ends the calling process. The other
end of a call that is no return is a write to a connection that the server has closed, when
the caller has left SIGPIPE as it is.

`Client.conducted_iff` puts this together. What the call and a manager make of each other is
the subject of `Srun.Dialogue`.
-/

namespace Srun

/-- An exception with its text, to which a `CAPIException` adds that of `errno`. Each of them
is a `std::exception`. -/
inductive Thrown
  | invalidArgument (what : String)
  | capi (what : String)
  | runtime (what : String)
  deriving DecidableEq

/-- Program points of `Srunc::run` and of the functions that it calls. -/
inductive ClientPc
  | createOut
  | createErr
  | build
  | socket
  | connect
  | send (m : Message)
  | poll
  | recv (data : Bytes)
  | returned (result : Bool)
  /-- `std::terminate` has ended the process. -/
  | terminated
  /-- SIGPIPE has ended the process. -/
  | killed
  deriving DecidableEq

namespace ClientPc

/-- The point lies in the `try` block of `exec`. -/
def inTry : ClientPc → Bool
  | socket | connect | send _ | poll | recv _ => true
  | _ => false

/-- The points of `run` before `exec`. They lie in no `try` block, and `run` is `noexcept`. -/
def starting : ClientPc → Bool
  | createOut | createErr | build => true
  | _ => false

/-- An upper bound for the steps of the client until it waits. Every step of its own lowers it,
and one heartbeat puts it back to one. -/
def rank : ClientPc → ℕ
  | createOut => 6
  | createErr => 5
  | build => 4
  | socket => 3
  | connect => 2
  | send _ => 1
  | _ => 0

theorem inTry_of_starting {pc : ClientPc} (h : pc.starting = true) : pc.inTry = false := by
  cases pc <;> first | rfl | cases h

end ClientPc

/-- A system call of the client with its result; `tau` only computes. What the kernel and the
server answer is open at each of them. -/
inductive ClientEvent
  | tau
  | creat (ok : Bool)
  | socket (ok : Bool)
  | connect (ok : Bool)
  | write (data : Bytes) (r : WriteResult)
  | poll (ok : Bool)
  /-- Some bytes, or the end of them. -/
  | read (c : Option Chunk)
  deriving DecidableEq

/-- The client waits for the server. In these calls it can be held up as long as the command
runs. -/
def ClientEvent.waits : ClientEvent → Bool
  | poll _ | read _ => true
  | _ => false

/-- A call of `run` with the `Srunc` object that it works on. -/
structure Client where
  pc : ClientPc := .createOut
  outfile : String := ""
  errfile : String := ""
  /-- `message` of `run`; a parse that fails leaves it unspecified. -/
  message : Option Message := some {}
  /-- What the handler has written to the log. -/
  logged : List Thrown := []
  /-- What has been written to the server. -/
  sent : List Bytes := []
  /-- A file could not be created. -/
  uncreated : Bool := false
  deriving DecidableEq

namespace Client

def goto (s : Client) (pc : ClientPc) : Client := { s with pc := pc }

/-- `throw`: the handler of `exec`, or the end of the process where no handler is. The handler
logs the text and lets `exec` return `false`. -/
def throw (s : Client) (e : Thrown) : Client :=
  if s.pc.inTry then { s with pc := .returned false, logged := s.logged ++ [e] }
  else s.goto .terminated

/-- `create777`, in a call that goes on at `pc`. -/
def create777 (s : Client) (filepath : String) (pc : ClientPc) : ClientEvent → Option Client
  | .tau =>
    if filepath = "" then
      some ({ s with uncreated := true }.throw (.invalidArgument "create777(empty)"))
    else none
  | .creat ok =>
    if filepath = "" then none
    else if ok then some (s.goto pc)
    else some ({ s with uncreated := true }.throw (.capi ("create777 " ++ filepath)))
  | _ => none

/-- `run` does nothing for a stream in another mode than FILE. -/
def skip (s : Client) (pc : ClientPc) : ClientEvent → Option Client
  | .tau => some (s.goto pc)
  | _ => none

/-- `sendMessage`: one `write` for the whole message, and a count that differs from its size is
an exception, whatever has gone out. -/
def sendMessage (E : Env) (s : Client) (m : Message) : ClientEvent → Option Client
  | .tau =>
    if E.serialize m = none then some (s.throw (.runtime "Message SerializeToString failed"))
    else none
  | .write data r =>
    if E.serialize m = some data then
      match r with
      | .wrote n =>
        if n ≤ data.length then
          let s := { s with sent := s.sent ++ [data.take n] }
          -- the size is compared as an `int`
          if (n : Int) = (Int32.ofNat data.length).toInt then some (s.goto .poll)
          else some (s.throw (.capi "SendMessage"))
        else none
      | .failed => some (s.throw (.capi "SendMessage"))
      | .sigpipe => some (s.goto .killed)
    else none
  | _ => none

/-- The loop of `exec` with a message in hand. -/
def received (s : Client) (m : Message) : Client :=
  { s with message := some m, pc := if m.method = .syn then .send ackMessage else .returned true }

/-- `recvMessage`, which reads until a read gives nothing more and parses what it has, and the
loop of `exec` after it. -/
def recvMessage (E : Env) (s : Client) (data : Bytes) : ClientEvent → Option Client
  | .read (some c) => some (s.goto (.recv (data ++ c.bytes)))
  | .read none =>
    if data = [] then some (s.throw (.capi "recvMessage empty"))
    else match E.parse data with
      | some m => some (s.received m)
      | none =>
        some ({ s with message := none }.throw (.runtime "Message ParseFromString failed"))
  | _ => none

/-- One step of `run`. -/
def step (E : Env) (request : Request) (s : Client) (ev : ClientEvent) : Option Client :=
  match s.pc, ev with
  | .createOut, ev =>
    if request.outmode = .file then
      { s with outfile := request.outfile }.create777 request.outfile .createErr ev
    else s.skip .createErr ev
  | .createErr, ev =>
    if request.errmode = .file then
      { s with errfile := request.errfile }.create777 request.errfile .build ev
    else s.skip .build ev
  | .build, .tau => some { s with message := some (Call.run request).message, pc := .socket }
  | .socket, .socket ok =>
    some (if ok then s.goto .connect else s.throw (.capi "socket"))
  | .connect, .connect ok =>
    some (if ok then s.goto (.send (Call.run request).message) else s.throw (.capi "connect"))
  | .send m, ev => s.sendMessage E m ev
  | .poll, .poll ok => some (if ok then s.goto (.recv []) else s.throw (.runtime "poll"))
  | .recv data, ev => s.recvMessage E data ev
  | _, _ => none

/-- `response`, once `run` has returned. -/
def response (s : Client) : Option Response := s.message.map (·.getResponse)

/-! ### An orderly call -/

/-- The call has returned, or it goes on; and nothing was sent if a file is missing. -/
structure Conducted (E : Env) (request : Request) (s : Client) : Prop where
  returns : (∃ result, s.pc = .returned result) ∨ ∃ ev s', s.step E request ev = some s'
  unsent : s.uncreated = true → s.sent = []

/-- A file that is asked for has a name and is created. -/
def Creates (mode : OutMode) (filepath : String) (ev : ClientEvent) : Prop :=
  mode = .file → filepath ≠ "" ∧ ev = .creat true

/-- What a step asks of the request and of the system: the files can be created, and the
caller does not die of a write. -/
def Safe (request : Request) (s : Client) (ev : ClientEvent) : Prop :=
  (s.pc = .createOut → Creates request.outmode request.outfile ev) ∧
  (s.pc = .createErr → Creates request.errmode request.errfile ev) ∧
  ∀ data, ev ≠ .write data .sigpipe

/-! ### The steps -/

/-- The results upon which a function that `exec` calls throws. A read that gives nothing does
so when it is the first, or when the bytes before it are no message. -/
def throws : ClientPc → ClientEvent → Bool
  | .socket, .socket false | .connect, .connect false | .poll, .poll false => true
  | .send _, .tau | .send _, .write _ .failed | .send _, .write _ (.wrote _) => true
  | .recv _, .read none => true
  | _, _ => false

/-- A stream of which `run` is about to create the file: its mode and its file in the request,
where `run` goes on, and the object with the name of the file. -/
inductive Creating (request : Request) (s : Client) : OutMode → String → ClientPc → Client → Prop
  | out (hpc : s.pc = .createOut) :
      Creating request s request.outmode request.outfile .createErr
        { s with outfile := request.outfile }
  | err (hpc : s.pc = .createErr) :
      Creating request s request.errmode request.errfile .build
        { s with errfile := request.errfile }

/-- The steps of a call, by name. All exceptions in `exec` are one case, since the handler
treats them alike; those of `create777` are two, since the text tells them apart. -/
inductive Step (E : Env) (request : Request) (s : Client) : ClientEvent → Client → Prop
  | skip {mode : OutMode} {filepath : String} {pc : ClientPc} {s₁ : Client}
      (hc : Creating request s mode filepath pc s₁) (hmode : mode ≠ .file) :
      Step E request s .tau (s.goto pc)
  | create {mode : OutMode} {filepath : String} {pc : ClientPc} {s₁ : Client}
      (hc : Creating request s mode filepath pc s₁) (hname : filepath ≠ "") :
      Step E request s (.creat true) (s₁.goto pc)
  | createEmpty {filepath : String} {pc : ClientPc} {s₁ : Client}
      (hc : Creating request s .file filepath pc s₁) :
      Step E request s .tau
        ({ s₁ with uncreated := true }.throw (.invalidArgument "create777(empty)"))
  | createFail {filepath : String} {pc : ClientPc} {s₁ : Client}
      (hc : Creating request s .file filepath pc s₁) :
      Step E request s (.creat false)
        ({ s₁ with uncreated := true }.throw (.capi ("create777 " ++ filepath)))
  | build (hpc : s.pc = .build) :
      Step E request s .tau { s with message := some (Call.run request).message, pc := .socket }
  | socket (hpc : s.pc = .socket) : Step E request s (.socket true) (s.goto .connect)
  | connect (hpc : s.pc = .connect) :
      Step E request s (.connect true) (s.goto (.send (Call.run request).message))
  | sent {m : Message} {data : Bytes} {n : ℕ} (hpc : s.pc = .send m)
      (hdata : E.serialize m = some data) :
      Step E request s (.write data (.wrote n))
        ({ s with sent := s.sent ++ [data.take n] }.goto .poll)
  | sigpipe {m : Message} {data : Bytes} (hpc : s.pc = .send m) :
      Step E request s (.write data .sigpipe) (s.goto .killed)
  | poll (hpc : s.pc = .poll) : Step E request s (.poll true) (s.goto (.recv []))
  | readChunk {data : Bytes} (c : Chunk) (hpc : s.pc = .recv data) :
      Step E request s (.read (some c)) (s.goto (.recv (data ++ c.bytes)))
  | received {data : Bytes} {m : Message} (hpc : s.pc = .recv data) (hdata : data ≠ [])
      (hm : E.parse data = some m) : Step E request s (.read none) (s.received m)
  /-- An exception in `exec`. -/
  | throws {ev : ClientEvent} {s₁ : Client} (e : Thrown) (hev : throws s.pc ev = true)
      (hpc : s₁.pc = s.pc) (hun : s₁.uncreated = s.uncreated) :
      Step E request s ev (s₁.throw e)

variable {E : Env} {request : Request} {s s' t : Client} {ev : ClientEvent}
  {evs : List ClientEvent} {m : Message}

/-- `create777` for either stream. The two points have the same cases, with the file and the
point after it from `Creating`. -/
theorem create_cases {mode : OutMode} {filepath : String} {pc : ClientPc} {s₁ : Client}
    (hc : Creating request s mode filepath pc s₁)
    (h : (if mode = .file then s₁.create777 filepath pc ev else s.skip pc ev) = some s') :
    Step E request s ev s' := by
  by_cases hmode : mode = .file
  · subst hmode
    rw [if_pos rfl] at h
    cases ev with
    | tau =>
      obtain ⟨-, h⟩ := Option.ite_none_right_eq_some.mp h
      obtain rfl := Option.some.inj h
      exact .createEmpty hc
    | creat ok =>
      obtain ⟨hname, h⟩ := Option.ite_none_left_eq_some.mp h
      -- the name is there, and `creat` decides
      cases ok with
      | true =>
        obtain rfl := Option.some.inj h
        exact .create hc hname
      | false =>
        obtain rfl := Option.some.inj h
        exact .createFail hc
    | _ => cases h
  · rw [if_neg hmode] at h
    cases ev with
    | tau =>
      obtain rfl := Option.some.inj h
      exact .skip hc hmode
    | _ => cases h

theorem sendMessage_cases (hpc : s.pc = .send m) (h : s.sendMessage E m ev = some s') :
    Step E request s ev s' := by
  cases ev with
  | tau =>
    obtain ⟨-, h⟩ := Option.ite_none_right_eq_some.mp h
    obtain rfl := Option.some.inj h
    exact .throws _ (by rw [hpc]; rfl) rfl rfl
  | write data r =>
    obtain ⟨hdata, h⟩ := Option.ite_none_right_eq_some.mp h
    cases r with
    | wrote n =>
      obtain ⟨-, h⟩ := Option.ite_none_right_eq_some.mp h
      -- what has been written counts as sent only when the size is right
      split at h
      · obtain rfl := Option.some.inj h
        exact .sent hpc hdata
      · obtain rfl := Option.some.inj h
        exact .throws _ (by rw [hpc]; rfl) rfl rfl
    | failed =>
      obtain rfl := Option.some.inj h
      exact .throws _ (by rw [hpc]; rfl) rfl rfl
    | sigpipe =>
      obtain rfl := Option.some.inj h
      exact .sigpipe hpc
  | _ => cases h

theorem recvMessage_cases {data : Bytes} (hpc : s.pc = .recv data)
    (h : s.recvMessage E data ev = some s') : Step E request s ev s' := by
  unfold recvMessage at h
  split at h
  · obtain rfl := Option.some.inj h
    exact .readChunk _ hpc
  · split at h
    · obtain rfl := Option.some.inj h
      exact .throws _ (by rw [hpc]; rfl) rfl rfl
    · next hdata =>
      split at h
      · next hm =>
        obtain rfl := Option.some.inj h
        exact .received hpc hdata hm
      · obtain rfl := Option.some.inj h
        exact .throws _ (by rw [hpc]; rfl) rfl rfl
  · cases h

/-- **Every step of a call is one of the named ones.** -/
theorem step_cases (h : s.step E request ev = some s') : Step E request s ev s' := by
  unfold step at h
  split at h
  · next hpc => exact create_cases (.out hpc) h
  · next hpc => exact create_cases (.err hpc) h
  · next hpc =>
    obtain rfl := Option.some.inj h
    exact .build hpc
  · next ok hpc =>
    obtain rfl := Option.some.inj h
    cases ok with
    | true => exact .socket hpc
    | false => exact .throws _ (by rw [hpc]; rfl) rfl rfl
  · next ok hpc =>
    obtain rfl := Option.some.inj h
    cases ok with
    | true => exact .connect hpc
    | false => exact .throws _ (by rw [hpc]; rfl) rfl rfl
  · next hpc => exact sendMessage_cases hpc h
  · next ok hpc =>
    obtain rfl := Option.some.inj h
    cases ok with
    | true => exact .poll hpc
    | false => exact .throws _ (by rw [hpc]; rfl) rfl rfl
  · next hpc => exact recvMessage_cases hpc h
  · cases h

/-! ### The course of the call -/

/-- What a step does to the call. The four cases are told apart by whether `exec` has begun and
by whether the step is safe; the results below need no more of a step than this. -/
inductive Effect (request : Request) (s : Client) (ev : ClientEvent) (s' : Client) : Prop
  /-- `run` goes on to its next point. -/
  | start (hpc : s.pc.starting = true) (hsafe : Safe request s ev) (hev : ev.waits = false)
      (hpc' : s'.pc.starting = true ∨ s'.pc = .socket) (hrank : s'.pc.rank + 1 = s.pc.rank)
      (hsent : s'.sent = s.sent) (hun : s'.uncreated = s.uncreated)
  /-- An exception in `run`. -/
  | terminate (hpc : s.pc.starting = true) (hsafe : ¬Safe request s ev) (hev : ev.waits = false)
      (hpc' : s'.pc = .terminated) (hrank : s'.pc.rank < s.pc.rank) (hsent : s'.sent = s.sent)
  /-- `exec` goes on, or returns. -/
  | exec (hpc : s.pc.inTry = true) (hsafe : Safe request s ev)
      (hpc' : s'.pc.inTry = true ∨ ∃ result, s'.pc = .returned result)
      (hrank : s'.pc.rank + (if ev.waits then 0 else 1) ≤ s.pc.rank + if ev.waits then 1 else 0)
      (hun : s'.uncreated = s.uncreated)
  | kill (hpc : s.pc.inTry = true) (hsafe : ¬Safe request s ev) (hev : ev.waits = false)
      (hpc' : s'.pc = .killed) (hrank : s'.pc.rank < s.pc.rank) (hun : s'.uncreated = s.uncreated)

theorem safe_of_inTry (hpc : s.pc.inTry = true) (hev : ∀ data, ev ≠ .write data .sigpipe) :
    Safe request s ev := by
  refine ⟨fun h => ?_, fun h => ?_, hev⟩
  all_goals
    rw [h] at hpc
    cases hpc

theorem throw_of_starting {e : Thrown} (hpc : s.pc.starting = true) :
    s.throw e = s.goto .terminated := by
  rw [throw, ClientPc.inTry_of_starting hpc]
  rfl

section Creating

variable {mode : OutMode} {filepath : String} {pc : ClientPc} {s₁ : Client}

theorem Creating.starting (hc : Creating request s mode filepath pc s₁) :
    s.pc.starting = true := by
  cases hc with
  | out hpc | err hpc =>
    rw [hpc]
    rfl

/-- Where `run` goes on. -/
theorem Creating.next (hc : Creating request s mode filepath pc s₁) :
    pc.starting = true ∧ pc.rank + 1 = s.pc.rank := by
  cases hc with
  | out hpc | err hpc => exact ⟨rfl, by rw [hpc]; rfl⟩

theorem Creating.same (hc : Creating request s mode filepath pc s₁) :
    s₁.pc = s.pc ∧ s₁.sent = s.sent ∧ s₁.uncreated = s.uncreated := by
  cases hc with
  | out | err => exact ⟨rfl, rfl, rfl⟩

/-- What is safe for the file. -/
theorem Creating.safe_iff (hc : Creating request s mode filepath pc s₁)
    (hev : ∀ data, ev ≠ .write data .sigpipe) : Safe request s ev ↔ Creates mode filepath ev := by
  cases hc with
  | out hpc | err hpc => simp [Safe, hpc, hev]

/-- A file that is not created is the end: the exception of `create777` meets no handler. -/
theorem Effect.of_uncreated {e : Thrown} (hc : Creating request s .file filepath pc s₁)
    (hev : ev.waits = false) (hwrite : ∀ data, ev ≠ .write data .sigpipe)
    (hcreat : ev ≠ .creat true) :
    Effect request s ev ({ s₁ with uncreated := true }.throw e) := by
  obtain ⟨hpc₁, hsent, -⟩ := hc.same
  rw [throw_of_starting (s := { s₁ with uncreated := true }) (hpc₁ ▸ hc.starting)]
  -- `run` has no handler
  refine .terminate hc.starting (fun hs => ?_) hev rfl ?_ hsent
  · exact hcreat ((hc.safe_iff hwrite).mp hs rfl).2
  · rw [← hc.next.2]
    exact Nat.succ_pos _

end Creating

/-- A step of `exec` that goes on. It is safe as long as it is no SIGPIPE. -/
theorem Effect.of_goto {pc : ClientPc} {s₁ : Client} (hpc : s.pc.inTry = true)
    (hpc' : pc.inTry = true) (hun : s₁.uncreated = s.uncreated)
    (hev : ∀ data, ev ≠ .write data .sigpipe)
    (hrank : pc.rank + (if ev.waits then 0 else 1) ≤ s.pc.rank + if ev.waits then 1 else 0) :
    Effect request s ev (s₁.goto pc) :=
  .exec hpc (safe_of_inTry hpc hev) (Or.inl hpc') hrank hun

/-- Where `exec` throws, it has waited or not come to its wait. -/
theorem throws_cases (h : throws s.pc ev = true) :
    s.pc.inTry = true ∧ (∀ data, ev ≠ .write data .sigpipe) ∧
      (ev.waits = true ∨ 0 < s.pc.rank) := by
  unfold throws at h
  split at h
  case h_8 => cases h
  all_goals
    next hpc =>
      rw [hpc]
      simp [ClientPc.inTry, ClientEvent.waits, ClientPc.rank]

/-- Every step has one of these effects. The proof goes through the named steps, of which the
ones before `exec` come in pairs. -/
theorem step_effect (h : s.step E request ev = some s') : Effect request s ev s' := by
  cases step_cases h with
  -- before `exec`: what is asked for the file is what the step does
  | skip hc hmode =>
    exact .start hc.starting ((hc.safe_iff (by simp)).mpr fun hf => absurd hf hmode) rfl
      (Or.inl hc.next.1) hc.next.2 rfl rfl
  | create hc hname =>
    obtain ⟨-, hsent, hun⟩ := hc.same
    exact .start hc.starting ((hc.safe_iff (by simp)).mpr fun _ => ⟨hname, rfl⟩) rfl
      (Or.inl hc.next.1) hc.next.2 hsent hun
  | createEmpty hc => exact .of_uncreated hc rfl (by simp) (by simp)
  | createFail hc => exact .of_uncreated hc rfl (by simp) (by simp)
  | build hpc =>
    exact .start (by rw [hpc]; rfl) (by simp [Safe, hpc]) rfl (Or.inr rfl) (by rw [hpc]; rfl)
      rfl rfl
  -- in `exec`: each call leads to the next, one rank down unless it waits
  | socket hpc => exact .of_goto (by rw [hpc]; rfl) rfl rfl (by simp) (by rw [hpc]; exact le_refl 3)
  | connect hpc =>
    exact .of_goto (by rw [hpc]; rfl) rfl rfl (by simp) (by rw [hpc]; exact le_refl 2)
  | sent hpc => exact .of_goto (by rw [hpc]; rfl) rfl rfl (by simp) (by rw [hpc]; exact le_refl 1)
  | poll hpc => exact .of_goto (by rw [hpc]; rfl) rfl rfl (by simp) (Nat.zero_le _)
  | readChunk c hpc => exact .of_goto (by rw [hpc]; rfl) rfl rfl (by simp) (Nat.zero_le _)
  | @sigpipe m data hpc =>
    exact .kill (by rw [hpc]; rfl) (fun hs => hs.2.2 data rfl) rfl rfl
      (by rw [hpc]; exact Nat.one_pos) rfl
  | @received data m hpc =>
    have htry : s.pc.inTry = true := by rw [hpc]; rfl
    -- the answer to a heartbeat is one step of the client's own
    refine .exec htry (safe_of_inTry htry (by simp)) ?_ ?_ rfl
    · show (ite _ _ _ : ClientPc).inTry = true ∨ ∃ result, (ite _ _ _ : ClientPc) = _
      split
      · exact Or.inl rfl
      · exact Or.inr ⟨true, rfl⟩
    · show (ite _ _ _ : ClientPc).rank + 0 ≤ s.pc.rank + 1
      split
      · exact Nat.le_add_left 1 _
      · exact Nat.zero_le _
  | @throws ev s₁ e hev hpc hun =>
    obtain ⟨htry, hwrite, hrank⟩ := throws_cases hev
    -- the handler of `exec` logs it and returns
    rw [throw, hpc, if_pos htry]
    refine .exec htry (safe_of_inTry htry hwrite) (Or.inr ⟨false, rfl⟩) ?_ hun
    show 0 + _ ≤ _
    rcases hrank with hw | hpos
    · simp [hw]
    · split <;> omega

/-! ### Runs -/

/-- What holds of the call as long as every step is safe. It is the invariant of the first half
of `conducted_iff`; `Dead` is what a step that is not safe leaves behind. -/
structure Going (s : Client) : Prop where
  alive : s.pc.starting = true ∨ s.pc.inTry = true ∨ ∃ result, s.pc = .returned result
  created : s.uncreated = false

/-- The process is no more, by `std::terminate` or by the signal. -/
def Dead (s : Client) : Prop := s.pc = .terminated ∨ s.pc = .killed

theorem going_of_safe (hs : Going s) (hsafe : Safe request s ev)
    (h : s.step E request ev = some s') : Going s' := by
  cases step_effect h with
  | start _ _ _ hpc' _ _ hun =>
    refine ⟨?_, hun.trans hs.created⟩
    rcases hpc' with hpc' | hpc'
    · exact Or.inl hpc'
    · exact Or.inr (Or.inl (by rw [hpc']; rfl))
  | terminate _ hnot => exact absurd hsafe hnot
  | exec _ _ hpc' _ hun => exact ⟨Or.inr hpc', hun.trans hs.created⟩
  | kill _ hnot => exact absurd hsafe hnot

theorem dead_of_not_safe (hnot : ¬Safe request s ev) (h : s.step E request ev = some s') :
    Dead s' := by
  cases step_effect h with
  | start _ hsafe => exact absurd hsafe hnot
  | terminate _ _ _ hpc' => exact Or.inl hpc'
  | exec _ hsafe => exact absurd hsafe hnot
  | kill _ _ _ hpc' => exact Or.inr hpc'

theorem step_of_dead (hs : Dead s) : s.step E request ev = none := by
  rcases hs with hpc | hpc <;> simp [step, hpc]

/-- The client is never stuck: there is always a system call to make, or something to
compute. -/
theorem exists_step (hs : s.pc.starting = true ∨ s.pc.inTry = true) :
    ∃ ev s', s.step E request ev = some s' := by
  -- an empty name throws, any other can be created
  have hcreate : ∀ {mode : OutMode} {filepath : String} {s₁ : Client} {pc : ClientPc},
      ∃ ev s', (if mode = .file then s₁.create777 filepath pc ev else s.skip pc ev) = some s' := by
    intro mode filepath s₁ pc
    by_cases hmode : mode = .file
    · by_cases hempty : filepath = ""
      · exact ⟨.tau, _, by rw [if_pos hmode, create777, if_pos hempty]⟩
      · exact ⟨.creat true, _, by rw [if_pos hmode, create777, if_neg hempty]; rfl⟩
    · exact ⟨.tau, _, by rw [if_neg hmode, skip]⟩
  cases hpc : s.pc with
  | createOut => simpa only [step, hpc] using hcreate
  | createErr => simpa only [step, hpc] using hcreate
  | build => exact ⟨.tau, _, by simp only [step, hpc]; rfl⟩
  | socket => exact ⟨.socket true, _, by simp only [step, hpc]; rfl⟩
  | connect => exact ⟨.connect true, _, by simp only [step, hpc]; rfl⟩
  | send m =>
    cases hm : E.serialize m with
    -- a message that cannot be encoded throws, any other can be written
    | none => exact ⟨.tau, _, by simp only [step, hpc, sendMessage, hm, if_true]; rfl⟩
    | some data =>
      exact ⟨.write data .failed, _, by simp only [step, hpc, sendMessage, hm, if_true]; rfl⟩
  | poll => exact ⟨.poll true, _, by simp only [step, hpc]; rfl⟩
  | recv data =>
    exact ⟨.read (some ⟨[0], by decide, by decide⟩), _, by
      simp only [step, hpc, recvMessage]; rfl⟩
  | returned result => simp [hpc, ClientPc.starting, ClientPc.inTry] at hs
  | terminated => simp [hpc, ClientPc.starting, ClientPc.inTry] at hs
  | killed => simp [hpc, ClientPc.starting, ClientPc.inTry] at hs

theorem going_start : Going {} := ⟨Or.inl rfl, rfl⟩

/-- The call ends in good order as long as the process is there. -/
theorem Going.conducted (h : Going s) : Conducted E request s := by
  refine ⟨?_, fun hun => by rw [h.created] at hun; cases hun⟩
  rcases h.alive with hstart | htry | hret
  · exact Or.inr (exists_step (Or.inl hstart))
  · exact Or.inr (exists_step (Or.inr htry))
  · exact Or.inl hret

theorem not_conducted_of_dead (h : Dead s) : ¬Conducted E request s := by
  rintro ⟨⟨result, hret⟩ | ⟨ev, s', hstep⟩, -⟩
  · rcases h with hpc | hpc <;> rw [hpc] at hret <;> cases hret
  -- nothing is left that could take a step
  · rw [step_of_dead h] at hstep
    cases hstep

/-- Before `exec` nothing has been sent, and a file that is missing is the end. -/
structure Unsent (s : Client) : Prop where
  starting : s.pc.starting = true → s.sent = []
  uncreated : s.uncreated = true → s.sent = [] ∧ s.pc = .terminated

theorem Unsent.created (hs : Unsent s) (hpc : s.pc ≠ .terminated) : s.uncreated ≠ true :=
  fun hun => hpc (hs.uncreated hun).2

theorem unsent_step (hs : Unsent s) (h : s.step E request ev = some s') : Unsent s' := by
  cases step_effect h with
  | start hpc _ _ _ _ hsent hun =>
    have hne : s.pc ≠ .terminated := fun heq => by rw [heq] at hpc; cases hpc
    exact ⟨fun _ => hsent.trans (hs.starting hpc),
      fun htrue => absurd (hun ▸ htrue) (hs.created hne)⟩
  | terminate hpc _ _ hpc' _ hsent =>
    -- the exception of `create777`: `exec` has not begun
    have hempty := hsent.trans (hs.starting hpc)
    exact ⟨fun _ => hempty, fun _ => ⟨hempty, hpc'⟩⟩
  | exec hpc _ hpc' _ hun =>
    have hne : s.pc ≠ .terminated := fun heq => by rw [heq] at hpc; cases hpc
    refine ⟨fun hst => ?_, fun htrue => absurd (hun ▸ htrue) (hs.created hne)⟩
    -- `exec` does not lead back
    rcases hpc' with htry | ⟨result, hret⟩
    · rw [ClientPc.inTry_of_starting hst] at htry
      cases htry
    · rw [hret] at hst
      cases hst
  | kill hpc _ _ hpc' _ hun =>
    have hne : s.pc ≠ .terminated := fun heq => by rw [heq] at hpc; cases hpc
    refine ⟨fun hst => ?_, fun htrue => absurd (hun ▸ htrue) (hs.created hne)⟩
    rw [hpc'] at hst
    cases hst

/-- Of its own accord the client does one thing at most each time that it has waited: a wait
raises the rank by one at most, and every other step lowers it. -/
theorem rank_step (h : s.step E request ev = some s') :
    s'.pc.rank + (if ev.waits then 0 else 1) ≤ s.pc.rank + if ev.waits then 1 else 0 := by
  cases step_effect h with
  | start _ _ hev _ hrank => simp [hev, hrank]
  | terminate _ _ hev _ hrank => simpa [hev] using hrank
  | exec _ _ _ hrank => exact hrank
  | kill _ _ hev _ hrank => simpa [hev] using hrank

theorem rank_exec (h : Machine.exec (step E request) s evs = some t) :
    t.pc.rank + evs.countP (fun ev => !ev.waits) ≤ s.pc.rank + evs.countP ClientEvent.waits := by
  induction evs generalizing s with
  | nil =>
    obtain rfl : s = t := Option.some.inj h
    exact le_refl _
  | cons ev evs ih =>
    obtain ⟨s', h1, h2⟩ := Machine.exec_cons_eq_some.mp h
    have hstep := rank_step h1
    have hrest := ih h2
    -- the two sums count the step on one side or on the other
    rw [List.countP_cons, List.countP_cons]
    cases hw : ev.waits <;> simp only [hw] at hstep ⊢ <;> simp at hstep ⊢ <;> omega

/-- **The client call.** A call ends with a result or goes on exactly when the files that the
request asks for have a name and are created, and no write finds the server gone with nobody
to mind the signal. When a file cannot be created, nothing has been sent. A call that goes on
waits: it has done at most six steps more of its own than it has waited for the server. -/
theorem conducted_iff (h : Machine.exec (step E request) {} evs = some t) :
    (Conducted E request t ↔ Machine.StepsMeet (step E request) (Safe request) {} evs) ∧
      (t.uncreated = true → t.sent = []) ∧
      evs.countP (fun ev => !ev.waits) ≤ evs.countP ClientEvent.waits + 6 := by
  have hunsent : Unsent t := Machine.exec_invariant (fun _ _ _ hs => unsent_step hs)
    ⟨fun _ => rfl, fun hun => by cases hun⟩ h
  refine ⟨?_, fun hun => (hunsent.uncreated hun).1, ?_⟩
  -- the first step that is not safe ends the process, and nothing happens after it
  · rcases Machine.meet_or_damaged (fun _ _ _ hs hsafe => going_of_safe hs hsafe)
      (fun _ _ _ _ hnot => dead_of_not_safe hnot)
      (fun s ev s' hs hstep => by rw [step_of_dead hs] at hstep; cases hstep)
      going_start h with ⟨hmeet, hgoing⟩ | ⟨hmiss, hdead⟩
    · exact iff_of_true hgoing.conducted hmeet
    · exact iff_of_false (not_conducted_of_dead hdead) hmiss
  -- the rank at the start bounds the steps that no wait pays for
  · have hrank := rank_exec h
    have hstart : ({} : Client).pc.rank = 6 := rfl
    omega

/-- A call without output files, up to its answer. -/
theorem conducted_iff_answered :
    ∃ t, Machine.exec (step Proto3.env { args := ["ls"] }) {}
        [.tau, .tau, .tau, .socket true, .connect true,
          .write [26, 4, 10, 2, 108, 115] (.wrote 6), .poll true,
          .read (some ⟨[18, 0], by decide, by decide⟩), .read none] = some t ∧
      t.pc = .returned true ∧ Conducted Proto3.env { args := ["ls"] } t := by
  obtain ⟨t, hrun, hpc⟩ := Machine.exec_of_any
    (show (Machine.exec (step Proto3.env { args := ["ls"] }) {}
        [.tau, .tau, .tau, .socket true, .connect true,
          .write [26, 4, 10, 2, 108, 115] (.wrote 6), .poll true,
          .read (some ⟨[18, 0], by decide, by decide⟩), .read none]).any
      (fun t => t.pc == .returned true) = true by decide +kernel)
  refine ⟨t, hrun, by simpa using hpc, (conducted_iff hrun).1.mpr ?_⟩
  simp [Machine.StepsMeet, Safe, Creates]

/-- The output is to go to a file without a name: `create777` throws, and the process of the
caller ends with it. -/
theorem not_conducted_outfile_empty :
    ∃ t, Machine.exec (step Proto3.env { args := ["ls"], outmode := .file }) {} [.tau] = some t ∧
      t.pc = .terminated ∧ ¬Conducted Proto3.env { args := ["ls"], outmode := .file } t :=
  ⟨_, rfl, rfl, not_conducted_of_dead (Or.inl rfl)⟩

end Client
end Srun
