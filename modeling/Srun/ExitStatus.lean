import Srun.Agreement
import Srun.CommandLine
import Srun.Verdict

/-!
# The exit status of srunctl

A command from the words behind `srunctl` to what the shell sees: `main` reads the options and
calls `Srunc::run`, the manager clones and reaps, the child goes through `execute`, and `main`
turns the response into a line and a number.

`Job` puts the session of a client next to what the kernel knows of the command
(`Verdict`); the manager process is in both, and takes its steps in both. `Settled` ties the
answer to the end of the command at the moment it is sent, and says that nothing happens to
the command afterwards. `status_eq_program` is what the number is worth: unless it is 255, the
program has been loaded and has ended with it.
-/

namespace Srun

/-! ### What `main` makes of a response -/

/-- What `main` prints, line by line, and returns. -/
structure Report where
  out : List Bytes := []
  err : List Bytes := []
  result : Int32
  deriving DecidableEq

/-- What the system makes of the value that `main` returns. -/
def Report.status (r : Report) : UInt8 := UInt8.ofInt r.result.toInt

namespace Srunctl

/-- The end of `main` after a word about the state of the command. -/
def say (quiet : Bool) (word : String) : Report :=
  if quiet then { err := [Proto3.text word], result := -1 }
  else { out := [Proto3.text "stat: " ++ Proto3.text word], result := -1 }

/-- The end of `main` after `Srunc::run`; `none` when it has returned false. -/
def report (quiet : Bool) : Option Response → Report
  | none => { err := [Proto3.text "Error. Please see the log."], result := -1 }
  | some response =>
    match response.stat with
    | .normal =>
      -- both streams go to `cout`
      { out := if quiet then [] else [response.outstr, response.errstr].filter (· ≠ [])
        result := response.retval }
    | .abnormal => say quiet "Abnormal"
    | .timeout => say quiet "Timeout"
    | .badargs => say quiet "ArgsError"
    | .other _ => { err := [Proto3.text "Unknown response stat"], result := -1 }

variable {quiet : Bool} {response : Response}

theorem result_say (quiet : Bool) (word : String) : (say quiet word).result = -1 := by
  unfold say
  split <;> rfl

/-- A response that is not NORMAL makes -1. -/
theorem status_of_not_normal (h : response.stat ≠ .normal) :
    (report quiet (some response)).status = 255 := by
  have hresult : (report quiet (some response)).result = -1 := by
    obtain ⟨stat, retval, outstr, errstr⟩ := response
    cases stat with
    | normal => exact absurd rfl h
    | other n => rfl
    | abnormal | timeout | badargs => exact result_say quiet _
  rw [Report.status, hresult]
  rfl

theorem status_of_normal (h : response.stat = .normal) :
    (report quiet (some response)).status = UInt8.ofInt response.retval.toInt := by
  obtain ⟨stat, retval, outstr, errstr⟩ := response
  cases h
  rfl

/-- The exit status of a command survives the two conversions. -/
theorem ofInt_toInt (code : UInt8) :
    UInt8.ofInt (Int32.ofInt (code.toNat : Int)).toInt = code := by
  have hlt : code.toNat < 2 ^ 8 := code.toNat_lt
  have hmod : ((code.toNat : Int) % 2 ^ 8).toNat = code.toNat := by omega
  rw [Int32.toInt_ofInt_of_le (by omega) (by omega), UInt8.ofInt, hmod, UInt8.ofNat_toNat]

end Srunctl

/-! ### A command from end to end -/

/-- A client with its manager, and what has become of the manager's child. -/
structure Job where
  session : Session
  verdict : Verdict

/-- What can happen. -/
inductive JobEvent
  /-- The client's side of the session. -/
  | client (ev : SessionEvent)
  | launch (ev : LaunchEvent)

namespace Job

def start (fd : ℕ) : Job := { session := Session.start fd, verdict := Verdict.start fd }

/-- What the manager process sees of an event. -/
def sees (j : Job) : LaunchEvent → Option Event
  | .server l => some (.mgr l)
  | .exit st => some (.exit j.verdict.launch.pid st)
  | _ => none

/-- One step. -/
def step (E : Env) (call : Call) (j : Job) : JobEvent → Option Job
  | .client (.server _) => none
  | .client ev => (j.session.step E call ev).map fun s => { j with session := s }
  | .launch ev =>
    (j.verdict.step E ev).bind fun v =>
      match j.sees ev with
      | none => some { j with verdict := v }
      | some ev => (j.session.step E call (.server ev)).map fun s => ⟨s, v⟩

/-- The response is about the program, or `execute` has failed before it was loaded. -/
def Settles (v : Verdict) (r : Response) : Prop :=
  Verdict.Ran v r ∨ v.program = none ∧ r.retval = 255

/-- The invariant of a foreground command. -/
structure Settled (E : Env) (call : Call) (j : Job) : Prop where
  same : j.session.proc = j.verdict.launch.proc
  agreed : Session.Agreed E call j.session
  told : Verdict.Told j.verdict
  answered : ∀ m ∈ j.session.proc.answers, m.getResponse.stat = .normal →
    j.session.proc.mgr.childStatus = .procExit ∧ Settles j.verdict m.getResponse

end Job

namespace Proc

variable {E : Env} {p p' : Proc} {ev : Event}

/-- Only a clone makes another command of one that has been reaped. -/
theorem Step.procExit (hstep : Proc.Step E p ev p') (h : p.mgr.childStatus = .procExit)
    (hclone : ∀ pid, ev = .mgr (.clone pid) → pid = -1) : p'.mgr.childStatus = .procExit := by
  cases hstep with
  | exit => exact h
  | mgr hadm hm =>
    cases hm with
    | reap hpc => exact reaped_childStatus
    | clone hpc hpid => exact absurd (hclone _ rfl) hpid
    | argsSurvive hpc => rwa [Manager.clearEntry_field Manager.childStatus fun _ _ => rfl]
    | received hpc => rwa [Manager.received_field Manager.childStatus fun _ _ _ => rfl]
    | _ => exact h

end Proc

namespace Job

variable {E : Env} {call : Call} {j j' : Job}

theorem Settled.start (fd : ℕ) : Settled E call (start fd) where
  same := rfl
  agreed := .start fd
  told := .start fd
  answered := fun _ h => by simp [Job.start, Session.start, Proc.answers, Proc.start] at h

/-- The result of a command settles it. -/
theorem settles_result {v : Verdict} (h : v.Told) {m : Message}
    (hpc : v.launch.proc.mgr.pc = .send m .result) (hnormal : m.getResponse.stat = .normal) :
    Settles v m.getResponse := by
  obtain ⟨hexit, hstat, hretval⟩ := h.reported.result m hpc
  obtain ⟨code, hended, hret⟩ := h.reported.exited hexit (hstat.symm.trans hnormal)
  have hidle : v.launch.proc.children = [] := h.core.idle (by rw [hexit]; simp)
  have hdead : v.launch.alive = false := by simp [Launch.alive, hidle]
  obtain ⟨st, hst, hcases⟩ := h.ended (by rw [hexit]; simp) hdead
  obtain rfl : st = .exited code := Option.some.inj (hst.symm.trans hended)
  rcases hcases with ⟨hprogram, -⟩ | ⟨hprogram, hleft⟩
  · exact Or.inl ⟨code, hprogram, hretval.trans hret⟩
  · -- `execute` has left, and not by a signal
    refine Or.inr ⟨hprogram, ?_⟩
    rcases hleft with hleft | hsig
    · rcases h.leaving _ hleft with heq | hsig
      · obtain rfl := WaitStatus.exited.inj heq
        exact hretval.trans hret
      · cases hsig
    · cases hsig

theorem after_launch (v : Verdict) (ev : LaunchEvent) (n : Launch) : (v.after ev n).launch = n := by
  unfold Verdict.after
  split
  · split <;> rfl
  · split <;> rfl
  · split <;> rfl
  · rfl

/-- What becomes of the manager process. -/
theorem launch_proc {v v' : Verdict} {ev : LaunchEvent} (hstep : v.step E ev = some v') :
    match ev with
    | .server l => v.launch.proc.step E (.mgr l) = some v'.launch.proc
    | .exit st => v.launch.proc.step E (.exit v.launch.pid st) = some v'.launch.proc
    | _ => v'.launch.proc = v.launch.proc := by
  obtain ⟨-, n, hn, rfl⟩ := Verdict.step_eq_some.mp hstep
  rw [after_launch]
  cases ev with
  | server l | exit st =>
    obtain ⟨p, hp, rfl⟩ := Option.map_eq_some_iff.mp hn
    exact hp
  | child l =>
    obtain ⟨-, hn⟩ := Option.ite_none_right_eq_some.mp hn
    obtain ⟨c, -, rfl⟩ := Option.map_eq_some_iff.mp hn
    rfl
  | fork =>
    obtain ⟨-, hn⟩ := Option.ite_none_right_eq_some.mp hn
    cases hn
    rfl
  | refork i =>
    obtain ⟨d, -, rfl⟩ := Option.map_eq_some_iff.mp hn
    rfl
  | gone i =>
    cases hn
    rfl

/-- Nothing becomes of a command that has ended, until the next one is cloned. -/
theorem program_of_dead {v v' : Verdict} {ev : LaunchEvent} (hdead : v.launch.alive = false)
    (hclone : ∀ pid, ev = .server (.clone pid) → pid = -1) (hstep : v.step E ev = some v') :
    v'.program = v.program := by
  obtain ⟨-, n, hn, rfl⟩ := Verdict.step_eq_some.mp hstep
  cases ev with
  | server l => rw [Verdict.after_of_ne_clone fun pid hl => hclone pid (congrArg _ hl)]
  | child l =>
    obtain ⟨halive, -⟩ := Option.ite_none_right_eq_some.mp hn
    rw [hdead] at halive
    cases halive
  | exit st =>
    obtain ⟨p, hp, -⟩ := Option.map_eq_some_iff.mp hn
    cases Proc.step_cases hp with
    | exit hc hst =>
      have halive : v.launch.alive = true := decide_eq_true hc
      rw [hdead] at halive
      cases halive
  | _ => rfl

/-- The client's own steps leave the manager alone. -/
theorem proc_of_client {s s' : Session} {ev : SessionEvent} (hev : ∀ e, ev ≠ .server e)
    (hstep : s.step E call ev = some s') : s'.proc = s.proc := by
  have hwrite : ∀ m, (s.write E m).proc = s.proc := fun m => by
    unfold Session.write
    split <;> rfl
  cases ev with
  | server e => exact absurd rfl (hev e)
  | send =>
    simp only [Session.step] at hstep
    split at hstep
    · cases hstep
      exact hwrite _
    · split at hstep <;> cases hstep
      exact hwrite _
    · cases hstep
  | receive | fail | close =>
    simp only [Session.step] at hstep
    split at hstep <;> cases hstep
    all_goals rfl

/-- The steps of a job, by name. -/
inductive Step (E : Env) (call : Call) (j : Job) : JobEvent → Job → Prop
  | client {ev : SessionEvent} {s : Session} (hs : j.session.step E call ev = some s)
      (hproc : s.proc = j.session.proc) : Step E call j (.client ev) { j with session := s }
  /-- A step that the manager process takes part in. -/
  | both {ev : LaunchEvent} {e : Event} {s : Session} {v : Verdict} (hsees : j.sees ev = some e)
      (hv : j.verdict.step E ev = some v) (hs : j.session.step E call (.server e) = some s) :
      Step E call j (.launch ev) ⟨s, v⟩
  | alone {ev : LaunchEvent} {v : Verdict} (hsees : j.sees ev = none)
      (hv : j.verdict.step E ev = some v) : Step E call j (.launch ev) { j with verdict := v }

/-- The list is complete. -/
theorem step_cases {ev : JobEvent} (h : j.step E call ev = some j') : Step E call j ev j' := by
  cases ev with
  | client ev =>
    have hev : ∀ e, ev ≠ .server e := by
      rintro e rfl
      cases h
    have h : (j.session.step E call ev).map (fun s => { j with session := s }) = some j' := by
      cases ev with
      | server e => exact absurd rfl (hev e)
      | _ => exact h
    obtain ⟨s, hs, rfl⟩ := Option.map_eq_some_iff.mp h
    exact .client hs (proc_of_client hev hs)
  | launch ev =>
    obtain ⟨v, hv, h⟩ := Option.bind_eq_some_iff.mp h
    cases hsees : j.sees ev with
    | none =>
      rw [hsees] at h
      cases h
      exact .alone hsees hv
    | some e =>
      rw [hsees] at h
      obtain ⟨s, hs, rfl⟩ := Option.map_eq_some_iff.mp h
      exact .both hsees hv hs

/-- The manager process takes its step in both. -/
theorem both_proc {ev : LaunchEvent} {e : Event} {s : Session} {v : Verdict}
    (hsame : j.session.proc = j.verdict.launch.proc) (hsees : j.sees ev = some e)
    (hv : j.verdict.step E ev = some v) (hs : j.session.step E call (.server e) = some s) :
    Proc.Step E j.session.proc e s.proc ∧ s.proc = v.launch.proc := by
  have hproc : j.session.proc.step E e = some v.launch.proc := by
    rw [hsame]
    have hlaunch := launch_proc hv
    cases ev with
    | server l | exit st =>
      obtain rfl := Option.some.inj hsees
      exact hlaunch
    | _ => cases hsees
  obtain ⟨-, hs⟩ := Option.ite_none_right_eq_some.mp hs
  rw [hproc] at hs
  cases hs
  exact ⟨Proc.step_cases hproc, rfl⟩

/-- What it does not see leaves it alone. -/
theorem proc_of_alone {ev : LaunchEvent} {v : Verdict} (hsees : j.sees ev = none)
    (hv : j.verdict.step E ev = some v) : v.launch.proc = j.verdict.launch.proc := by
  have hlaunch := launch_proc hv
  cases ev with
  | server | exit => cases hsees
  | _ => exact hlaunch

/-- A command that has been reaped is no longer there. -/
theorem Settled.dead (h : Settled E call j)
    (hexit : j.session.proc.mgr.childStatus = .procExit) : j.verdict.launch.alive = false := by
  have hidle := h.agreed.served.base.core.idle (by rw [hexit]; simp)
  rw [Launch.alive, ← h.same, hidle]
  rfl

theorem Settles.congr {v v' : Verdict} {r : Response} (h : Settles v r)
    (hprogram : v'.program = v.program) : Settles v' r := by
  unfold Settles Verdict.Ran at h ⊢
  rw [hprogram]
  exact h

/-- What is settled stays so in a step of the manager process. -/
theorem Settled.answered_step {r r' : Request} (hr : E.loadRequest r = some r')
    (hb : r'.backend = false) (h : Settled E (.run r) j) {ev : Event} {p : Proc} {v : Verdict}
    (hstep : Proc.Step E j.session.proc ev p)
    (hv : (∀ pid, ev = .mgr (.clone pid) → pid = -1) → j.verdict.launch.alive = false →
      v.program = j.verdict.program) :
    ∀ m ∈ p.answers, m.getResponse.stat = .normal →
      p.mgr.childStatus = .procExit ∧ Settles v m.getResponse := by
  have hserved := h.agreed.served
  -- no command is cloned once an answer has been sent
  have hclone : j.session.proc.answers ≠ [] → ∀ pid, ev = .mgr (.clone pid) → pid = -1 := by
    rintro hne pid rfl
    cases hstep with
    | mgr hadm hm =>
      cases hm with
      | cloneFail hpc => rfl
      | clone hpc hpid =>
        exact absurd (hserved.flag (hserved.serving .exe (by rw [hpc]; rfl)).1) hne
      | throws hl => cases (Pc.throwing_of_throws hl).2
  have hkeep : ∀ m ∈ j.session.proc.answers, m.getResponse.stat = .normal →
      p.mgr.childStatus = .procExit ∧ Settles v m.getResponse := by
    intro m hm hnormal
    obtain ⟨hexit, hsettles⟩ := h.answered m hm hnormal
    have hno := hclone (List.ne_nil_of_mem hm)
    exact ⟨hstep.procExit hexit hno, hsettles.congr (hv hno (h.dead hexit))⟩
  intro m hm hnormal
  cases hstep.talk with
  | silent hsent | read _ _ _ hsent =>
    rw [Proc.answers, hsent] at hm
    exact hkeep m hm hnormal
  | @wrote m' k data hpc hev hdata hsent hrec =>
    rw [Proc.answers, hsent, List.filter_append] at hm
    rcases List.mem_append.mp hm with hm | hm
    · exact hkeep m hm hnormal
    -- the answer is being sent
    obtain ⟨hm, hsyn⟩ := List.mem_filter.mp hm
    obtain rfl := List.mem_singleton.mp hm
    have hno : ∀ pid, ev = .mgr (.clone pid) → pid = -1 := fun pid heq => by
      rw [hev] at heq
      cases heq
    cases k with
    | result =>
      have hexit := (h.told.reported.result m (h.same ▸ hpc)).1
      rw [← h.same] at hexit
      exact ⟨hstep.procExit hexit hno,
        (settles_result h.told (h.same ▸ hpc) hnormal).congr (hv hno (h.dead hexit))⟩
    | heartbeat => exact absurd (hserved.voice.heartbeat m hpc) (by simpa using hsyn)
    | badArgs evs =>
      rw [hserved.voice.badArgs m evs hpc] at hnormal
      cases hnormal
    | started evs =>
      -- that would be the answer to a backend command
      have hback := (hserved.base.started m evs hpc).2
      obtain ⟨-, -, hne⟩ := hserved.serving m.method (by rw [hpc]; rfl)
      rw [hserved.backend r r' rfl hr hne (by rw [hpc]; rfl), hb] at hback
      cases hback
    | reply evs =>
      have hmethod := (hserved.serving m.method (by rw [hpc]; rfl)).2.1
      exact absurd hmethod (hserved.voice.reply m evs hpc)

theorem Settled.step {r r' : Request} (hne : E.WritesBytes) (hE : E.ParsesBack)
    (hr : E.loadRequest r = some r') (hb : r'.backend = false) (h : Settled E (.run r) j)
    {ev : JobEvent} (hstep : j.step E (.run r) ev = some j') : Settled E (.run r) j' := by
  cases step_cases hstep with
  | @client ev s hs hproc =>
    refine ⟨hproc.trans h.same, h.agreed.step hne hE hs, h.told, ?_⟩
    show ∀ m ∈ s.proc.answers, _
    rw [hproc]
    exact h.answered
  | @both ev e s v hsees hv hs =>
    obtain ⟨hp, hsame⟩ := both_proc h.same hsees hv hs
    refine ⟨hsame, h.agreed.step hne hE hs, h.told.step hv, ?_⟩
    refine h.answered_step hr hb hp fun hno hdead => program_of_dead hdead (fun pid heq => ?_) hv
    -- the clone is seen by the manager process
    rw [heq] at hsees
    exact hno pid (Option.some.inj hsees).symm
  | @alone ev v hsees hv =>
    have hproc := proc_of_alone hsees hv
    refine ⟨h.same.trans hproc.symm, h.agreed, h.told.step hv, fun m hm hnormal => ?_⟩
    obtain ⟨hexit, hsettles⟩ := h.answered m hm hnormal
    refine ⟨hexit, hsettles.congr (program_of_dead (h.dead hexit) (fun pid heq => ?_) hv)⟩
    rw [heq] at hsees
    cases hsees

/-- **What the exit status is worth.** Whatever `srunctl` returns for a foreground command, 255
apart, the program has been loaded and has ended with it; in particular 0 means that the
command has run and has succeeded. And with a NORMAL response the exit status of a program
that has been loaded is returned. -/
theorem status_eq_program {fd : ℕ} {evs : List JobEvent} {r r' : Request} {m : Message}
    (hne : E.WritesBytes) (hE : E.ParsesBack) (hr : E.loadRequest r = some r')
    (hb : r'.backend = false)
    (hrun : Machine.exec (step E (.run r)) (start fd) evs = some j)
    (hm : j.session.client = .returned m) (quiet : Bool) :
    let status := (Srunctl.report quiet (some m.getResponse)).status
    (status ≠ 255 → j.verdict.program = some (.exited status)) ∧
      (m.getResponse.stat = .normal →
        ∀ code, j.verdict.program = some (.exited code) → status = code) := by
  intro status
  have hsettled : Settled E (.run r) j :=
    Machine.exec_invariant (fun _ _ _ h hs => Settled.step hne hE hr hb h hs) (.start fd) hrun
  have hanswer := hsettled.answered m (hsettled.agreed.returned m hm)
  by_cases hnormal : m.getResponse.stat = .normal
  · have hstatus : status = UInt8.ofInt m.getResponse.retval.toInt :=
      Srunctl.status_of_normal hnormal
    rcases (hanswer hnormal).2 with ⟨code, hprogram, hret⟩ | ⟨hprogram, hret⟩
    · have hcode : status = code := by rw [hstatus, hret, Srunctl.ofInt_toInt]
      refine ⟨fun _ => hcode ▸ hprogram, fun _ code' hcode' => ?_⟩
      rw [hprogram] at hcode'
      cases hcode'
      exact hcode
    · -- `exit(-1)` in `execute`
      refine ⟨fun hne => absurd (hstatus.trans (by rw [hret]; rfl)) hne, fun _ code hcode => ?_⟩
      rw [hprogram] at hcode
      cases hcode
  · exact ⟨fun hne => absurd (Srunctl.status_of_not_normal hnormal) hne,
      fun h => absurd h hnormal⟩

/-- A session for `/bin/ls`, which exits with 2. -/
def lsJob : List JobEvent :=
  .client .send :: (Verdict.lsEvents Launch.childLabels (.exited 2) ++
    [LaunchEvent.server (.write [0x12, 2, 0x10, 2] (.wrote 4))]).map .launch ++ [.client .receive]

/-- `srunctl` returns 2. -/
theorem status_eq_program_ls : ∃ j m,
    Machine.exec (step Proto3.env (.run { args := ["/bin/ls"] })) (start 5) lsJob = some j ∧
      j.session.client = .returned m ∧
      (Srunctl.report false (some m.getResponse)).status = 2 ∧
      j.verdict.program = some (.exited 2) := by
  obtain ⟨j, hrun, hj⟩ := Machine.exec_of_any
    (show (Machine.exec (step Proto3.env (.run { args := ["/bin/ls"] })) (start 5) lsJob).any
      (fun j => j.session.client == .returned { response := some { retval := 2 } }) = true by
        decide +kernel)
  have hm := beq_iff_eq.mp hj
  have hprogram := (status_eq_program Proto3.env_writesBytes Proto3.env_parsesBack rfl rfl hrun
    hm false).1 (by decide)
  exact ⟨j, _, hrun, hm, rfl, hprogram⟩

end Job
end Srun
