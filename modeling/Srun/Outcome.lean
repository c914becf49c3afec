import Srun.Answers

/-!
# What the result of a command says

Two handlers write `response.stat`: the timer event sets it to TIMEOUT, and
`wait_child` sets it when the command is reaped. The response is copied out later,
so what survives is the later write. A timer event that is handled while the
command still runs leads to the command's death, and so to a reap after it: its
TIMEOUT is always overwritten. A TIMEOUT in a result means that the timer expired
after the command had been reaped, while its output was still being read.

The invariant is `Outcome`, for runs with at most one command. It relates the
response to the recorded end of the command and to the phases of the command in
which timer events were handled; there is at most one such event, since it closes
the timer and only a clone leads to a new one.
-/

namespace Srun

namespace Pc

/-- A timer event has been handled by `stop_child` but not yet recorded in the
response. -/
def expiring : Pc → Bool
  | .timerEvent _ => true
  | _ => false

/-- The points that are neither in the handling of a timer event nor in the sending
of the result. -/
def calm : Pc → Bool
  | .stopChild (.timer _) | .timerEvent _ | .send _ .result => false
  | _ => true

/-- The points from which a step can add to the record of the command. -/
def recording : Pc → Bool
  | .stopChild (.timer _) | .send _ _ | .handle .clone _ _ => true
  | _ => false

theorem recording_of_unlockThrow {pc : Pc} (h : pc.unlockThrow = true) :
    pc.recording = false := by
  unfold unlockThrow at h
  split at h <;> first | rfl | cases h

theorem expiring_of_throwing {pc : Pc} (h : pc.throwing = true ∨ pc.unlockThrow = true) :
    pc.expiring = false := by
  cases pc <;> first | rfl | (rcases h with h | h <;> cases h)

theorem send_of_throwing {pc : Pc} (h : pc.throwing = true) (hrec : pc.recording = true) :
    ∃ m k, pc = .send m k := by
  unfold throwing at h
  split at h <;> first | exact ⟨_, _, rfl⟩ | cases hrec | cases h

end Pc

/-- The state that `wait_child` reports for a wait status. -/
def Stat.ofStatus : WaitStatus → Stat
  | .exited _ => .normal
  | _ => .abnormal

/-- The response reports the wait status `st`, except that its state is TIMEOUT
when a timer event was `late`. -/
structure Response.Reports (r : Response) (st : WaitStatus) (late : Bool) : Prop where
  ended : st ≠ .other
  stat : r.stat = if late then .timeout else .ofStatus st
  retval : ∀ code, st = .exited code → r.retval = Int32.ofInt code.toNat

namespace Answer

/-- The result says what happened: TIMEOUT when the timer event was handled while
the command was running, otherwise how the command ended. -/
def Correct (a : Answer) : Prop :=
  if .running ∈ a.timers then a.response.stat = .timeout
  else match a.ended with
    | some (.exited code) => a.response.stat = .normal ∧ a.response.retval = Int32.ofInt code.toNat
    | some (.signaled _) => a.response.stat = .abnormal
    | _ => False

/-- A timer event was handled after the command had been reaped. Its TIMEOUT is what the result
says then. -/
def late (a : Answer) : Bool := a.timers = [.reaped]

/-- What is known of every result. -/
structure Faithful (a : Answer) : Prop where
  timers : a.timers.length ≤ 1
  reports : ∃ st, a.ended = some st ∧ a.response.Reports st a.late

/-- Whether a result is correct depends on when the timer event was handled only. -/
theorem Faithful.correct_iff {a : Answer} (h : a.Faithful) :
    a.Correct ↔ ∀ ph ∈ a.timers, ph = .ended := by
  obtain ⟨hlen, st, hended, hother, hstat, hret⟩ := h
  have htimers : a.timers = [] ∨ ∃ ph, a.timers = [ph] := by
    match a.timers, hlen with
    | [], _ => exact Or.inl rfl
    | [ph], _ => exact Or.inr ⟨ph, rfl⟩
  -- the stat is that of the wait status but for a late timer event
  have hreport : a.late = false → .running ∉ a.timers → a.Correct := by
    intro hlate hrun
    rw [hlate] at hstat
    cases st with
    | exited code => simp [Correct, hrun, hended, hstat, Stat.ofStatus, hret code rfl]
    | signaled sig => simp [Correct, hrun, hended, hstat, Stat.ofStatus]
    | other => exact absurd rfl hother
  rcases htimers with hnil | ⟨ph, hph⟩
  · simp [hnil, hreport (by simp [late, hnil]) (by simp [hnil])]
  · cases ph with
    | running =>
      have hlate : a.late = false := by simp [late, hph]
      have hne : a.response.stat ≠ .timeout := by
        rw [hstat, hlate]
        cases st <;> simp [Stat.ofStatus]
      simp [Correct, hph, hne]
    | ended => simp [hph, hreport (by simp [late, hph]) (by simp [hph])]
    | reaped =>
      have hlate : a.late = true := by simp [late, hph]
      rw [hlate] at hstat
      cases st with
      | other => exact absurd rfl hother
      | _ => simp [Correct, hph, hended, hstat]

end Answer

namespace Proc

variable {E : Env} {p p' : Proc} {ev : Event} {l : Label}

/-- The histories agree on the command: what has been cloned, which timer events there were, how
it ended and what has been answered. -/
structure SameRecord (h h' : History) : Prop where
  clones : h'.clones = h.clones
  timers : h'.timers = h.timers
  ended : h'.ended = h.ended
  results : h'.results = h.results

theorem SameRecord.refl (h : History) : SameRecord h h := ⟨rfl, rfl, rfl, rfl⟩

theorem histAfter_sameRecord (h : p.mgr.pc.recording = false) :
    SameRecord p.hist (p.histAfter E l) := by
  unfold histAfter
  split <;> first
    | exact ⟨rfl, rfl, rfl, rfl⟩
    | (split <;> exact ⟨rfl, rfl, rfl, rfl⟩)
    | simp_all [Pc.recording]

/-- What the response and the history say about the command, when there is at most
one. -/
structure Outcome (p : Proc) : Prop where
  idle : p.hist.clones = 0 → p.hist.timers = [] ∧ p.hist.results = [] ∧ p.mgr.timerfd = -1 ∧
    p.mgr.pc.setup = false
  timers : p.hist.timers.length ≤ 1
  fresh : p.mgr.pc.setup = true → p.hist.timers = []
  /-- The timer is closed by its first event. -/
  armed : p.hist.timers ≠ [] → p.mgr.pc.expiring = false → p.mgr.timerfd = -1
  expire : ∀ evs, p.mgr.pc = .stopChild (.timer evs) → p.mgr.timerfd ≠ -1
  event : p.mgr.pc.expiring = true → p.mgr.childStatus ≠ .procRunning →
    p.hist.timers = [.reaped]
  running : p.mgr.childStatus = .procRunning → .reaped ∉ p.hist.timers
  zombie : ∀ pid st, (pid, .zombie st) ∈ p.children → p.hist.ended = some st ∧ st ≠ .other
  exited : p.mgr.childStatus = .procExit → ∃ st, p.hist.ended = some st ∧
    p.mgr.response.Reports st (p.hist.timers = [.reaped] && !p.mgr.pc.expiring)
  result : ∀ m, p.mgr.pc = .send m .result → p.mgr.childStatus = .procExit ∧
    m.getResponse.stat = p.mgr.response.stat ∧ m.getResponse.retval = p.mgr.response.retval
  results : ∀ a ∈ p.hist.results, a.Faithful

theorem Outcome.start (fd : ℕ) : Outcome (start fd) where
  idle := fun _ => ⟨rfl, rfl, rfl, rfl⟩
  timers := Nat.zero_le _
  fresh := fun _ => rfl
  armed := fun _ _ => rfl
  expire := fun _ h => by simp [Proc.start] at h
  event := fun h => by simp [Proc.start, Pc.expiring] at h
  running := fun _ => by simp [Proc.start]
  zombie := fun _ _ h => by simp [Proc.start] at h
  exited := fun h => by simp [Proc.start] at h
  result := fun _ h => by simp [Proc.start] at h
  results := fun _ h => by simp [Proc.start] at h

/-- **Frame rule.** A step that leaves the response, the status and the record alone
preserves the invariant. -/
theorem Outcome.frame (h : Outcome p) {m : Manager} {hi : History} (hrec : SameRecord p.hist hi)
    (hev : p.mgr.pc.expiring = false) (hst : m.childStatus = p.mgr.childStatus)
    (hresp : m.response = p.mgr.response)
    (hfd : m.timerfd = p.mgr.timerfd ∨ m.timerfd = -1 ∨ p.mgr.pc.setup = true)
    (hset : m.pc.setup = true → p.mgr.pc.setup = true) (hev' : m.pc.expiring = false)
    (hexpire : ∀ evs, m.pc = .stopChild (.timer evs) → m.timerfd ≠ -1)
    (hresult : ∀ a, m.pc = .send a .result → m.childStatus = .procExit ∧
      a.getResponse.stat = m.response.stat ∧ a.getResponse.retval = m.response.retval) :
    Outcome { mgr := m, children := p.children, hist := hi } := by
  constructor
  case idle =>
    intro hcl
    rw [hrec.clones] at hcl
    obtain ⟨ht, hr, hfd', hs⟩ := h.idle hcl
    refine ⟨hrec.timers.trans ht, hrec.results.trans hr, ?_, ?_⟩
    · rcases hfd with hfd | hfd | hs'
      · exact hfd.trans hfd'
      · exact hfd
      · simp [hs] at hs'
    · exact Bool.eq_false_iff.mpr fun hs' => by simp [hset hs'] at hs
  case timers => simpa [hrec.timers] using h.timers
  case fresh =>
    intro hs
    simpa [hrec.timers] using h.fresh (hset hs)
  case armed =>
    intro hne _
    simp only [hrec.timers] at hne
    rcases hfd with hfd | hfd | hs'
    · exact hfd.trans (h.armed hne hev)
    · exact hfd
    · -- in the set-up the timer is new, and has had no event
      exact absurd (h.fresh hs') hne
  case expire => exact hexpire
  case event =>
    intro he
    simp [hev'] at he
  case running => simpa [hrec.timers, hst] using h.running
  case zombie => simpa [hrec.ended] using h.zombie
  case exited => simpa [hrec.timers, hrec.ended, hst, hresp, hev, hev'] using h.exited
  case result => exact hresult
  case results => simpa [hrec.results] using h.results

theorem histAfter_sameRecord_of_throwing (hpc : p.mgr.pc.throwing = true)
    (h : l.throwing = true) : SameRecord p.hist (p.histAfter E l) := by
  by_cases hrec : p.mgr.pc.recording = true
  · -- only in a write that is not complete
    obtain ⟨m, k, hsend⟩ := Pc.send_of_throwing hpc hrec
    unfold histAfter
    rw [hsend]
    split <;> first
      | exact ⟨rfl, rfl, rfl, rfl⟩
      | (rw [if_neg (of_decide_eq_true h)]; exact ⟨rfl, rfl, rfl, rfl⟩)
      | simp_all
  · exact histAfter_sameRecord (by simpa using hrec)

/-- The frame rule for a step to an ordinary point. -/
theorem Outcome.calm (h : Outcome p) {m : Manager} {hi : History} (hrec : SameRecord p.hist hi)
    (hev : p.mgr.pc.expiring = false) (hst : m.childStatus = p.mgr.childStatus)
    (hresp : m.response = p.mgr.response)
    (hfd : m.timerfd = p.mgr.timerfd ∨ m.timerfd = -1 ∨ p.mgr.pc.setup = true)
    (hset : m.pc.setup = true → p.mgr.pc.setup = true) (hcalm : m.pc.calm = true) :
    Outcome { mgr := m, children := p.children, hist := hi } :=
  h.frame hrec hev hst hresp hfd hset (by cases hm : m.pc <;> simp_all [Pc.calm, Pc.expiring])
    (fun evs hm => by simp [hm, Pc.calm] at hcalm) (fun a hm => by simp [hm, Pc.calm] at hcalm)

/-- The frame rule for a step of the manager between ordinary points. -/
theorem Outcome.plain (h : Outcome p) {m : Manager} (hrec : p.mgr.pc.recording = false)
    (hev : p.mgr.pc.expiring = false) (hst : m.childStatus = p.mgr.childStatus)
    (hresp : m.response = p.mgr.response)
    (hfd : m.timerfd = p.mgr.timerfd ∨ m.timerfd = -1 ∨ p.mgr.pc.setup = true)
    (hset : m.pc.setup = true → p.mgr.pc.setup = true) (hcalm : m.pc.calm = true) :
    Outcome { mgr := m, children := p.children, hist := p.histAfter E l } :=
  h.calm (histAfter_sameRecord hrec) hev hst hresp hfd hset hcalm

theorem phase_eq_reaped (h : p.mgr.childStatus ≠ .procRunning) : p.phase = .reaped := if_pos h

theorem phase_ne_reaped (h : p.mgr.childStatus = .procRunning) : p.phase ≠ .reaped := by
  rw [phase, if_neg (by simp [h])]
  split <;> simp

/-- The timer event is recorded by `stop_child`, which comes before `response.stat` is written.
It is the first one, since the timer is still open. -/
theorem Outcome.expired (h : Outcome p) {evs : List Int} {m : Manager} {hi : History}
    (hpc : p.mgr.pc = .stopChild (.timer evs)) (hm : m = p.mgr.goto (.timerEvent evs))
    (hhi : hi = { p.hist with timers := p.hist.timers ++ [p.phase] }) :
    Outcome { mgr := m, children := p.children, hist := hi } := by
  subst hm hhi
  have hfd := h.expire evs hpc
  have hnil : p.hist.timers = [] := by
    by_contra hne
    exact hfd (h.armed hne (by rw [hpc]; rfl))
  constructor
  case idle => exact fun hcl => absurd (h.idle hcl).2.2.1 hfd
  case timers => simp [hnil]
  case fresh =>
    intro hs
    cases hs
  case armed =>
    intro _ he
    cases he
  case expire =>
    intro _ he
    cases he
  case event =>
    intro _ hr
    have hr : p.mgr.childStatus ≠ .procRunning := hr
    simp only [hnil, List.nil_append]
    rw [phase_eq_reaped hr]
  case running =>
    intro hr
    simp only [hnil, List.nil_append, List.mem_singleton]
    exact (phase_ne_reaped hr).symm
  case zombie => exact h.zombie
  case exited =>
    -- the response has not been changed yet: this is left to the next step
    intro hex
    obtain ⟨st, hst, hrep⟩ := h.exited hex
    refine ⟨st, hst, ?_⟩
    simpa [hnil, Pc.expiring] using hrep
  case result =>
    intro _ he
    cases he
  case results => exact h.results

/-- What `wait_child` writes into the response. The signal of a killed command is not told. -/
theorem reaped_reports {s : Manager} {st : WaitStatus} {k : WaitRet} (hst : st ≠ .other) :
    (s.reaped st k).response.Reports st false := by
  cases st with
  | exited code =>
    simp only [Manager.reaped]
    rw [Manager.clearEntry_field Manager.response fun _ _ => rfl]
    exact ⟨hst, rfl, fun code' h => by cases h; rfl⟩
  | signaled sig =>
    simp only [Manager.reaped]
    split
    · exact ⟨hst, rfl, (by intro _ h; cases h)⟩
    · rw [Manager.clearEntry_field Manager.response fun _ _ => rfl]
      exact ⟨hst, rfl, (by intro _ h; cases h)⟩
  | other => exact absurd rfl hst

/-- The reap of the command sets the response, and with it undoes the TIMEOUT of an event that
came before. -/
theorem Outcome.reap (h : Outcome p) (hcore : Core p) {st : WaitStatus} {k : WaitRet}
    (hmem : (p.mgr.clonepid, .zombie st) ∈ p.children) (hpcexp : p.mgr.pc.expiring = false)
    {hi : History} (hrec : SameRecord p.hist hi) :
    Outcome { mgr := p.mgr.reaped st k
              children := p.children.erase (p.mgr.clonepid, .zombie st), hist := hi } := by
  obtain ⟨hrun, hch, -, -⟩ := hcore.mem_children hmem
  obtain ⟨hended, hne⟩ := h.zombie _ _ hmem
  have hlate : ¬ p.hist.timers = [.reaped] := fun ht => h.running hrun (by simp [ht])
  have hset : (p.mgr.reaped st k).pc.setup = false := Manager.reaped_pc rfl rfl rfl
  have hcalm : (p.mgr.reaped st k).pc.calm = true := Manager.reaped_pc rfl rfl rfl
  have hexp : (p.mgr.reaped st k).pc.expiring = false := Manager.reaped_pc rfl rfl rfl
  have hst : (p.mgr.reaped st k).childStatus = .procExit := reaped_childStatus
  have hfd : (p.mgr.reaped st k).timerfd = p.mgr.timerfd :=
    Manager.reaped_field Manager.timerfd fun _ _ _ _ => rfl
  constructor
  case idle =>
    intro hcl
    obtain ⟨ht, hr, hfd', -⟩ := h.idle (hrec.clones.symm.trans hcl)
    exact ⟨hrec.timers.trans ht, hrec.results.trans hr, hfd.trans hfd', hset⟩
  case timers => simpa [hrec.timers] using h.timers
  case fresh =>
    intro hs
    simp [hset] at hs
  case armed =>
    intro hn _
    exact hfd.trans (h.armed (by simpa [hrec.timers] using hn) hpcexp)
  case expire =>
    intro evs hpc
    simp only at hpc
    simp [hpc, Pc.calm] at hcalm
  case event =>
    intro he
    simp [hexp] at he
  case running =>
    intro hr
    rw [hst] at hr
    cases hr
  case zombie =>
    intro pid st' hm
    rw [hch, List.erase_cons_head] at hm
    cases hm
  case exited =>
    -- no timer event has been handled after the reap, so what `wait_child` wrote is there
    refine fun _ => ⟨st, hrec.ended.trans hended, ?_⟩
    simpa [hrec.timers, hlate] using reaped_reports hne
  case result =>
    intro m hpc
    simp only at hpc
    simp [hpc, Pc.calm] at hcalm
  case results => simpa [hrec.results] using h.results

/-- The timer event reaches the response. The timer is closed, so that no other event follows. -/
theorem Outcome.timerEvent (h : Outcome p) {evs : List Int} {hi : History}
    (hpc : p.mgr.pc = .timerEvent evs) (hrec : SameRecord p.hist hi) :
    Outcome { mgr := { p.mgr with timerfd := -1, response.stat := .timeout, pc := .dispatch evs }
              children := p.children, hist := hi } := by
  have hexp : p.mgr.pc.expiring = true := by rw [hpc]; rfl
  constructor
  case idle =>
    intro hcl
    obtain ⟨ht, hr, -, -⟩ := h.idle (hrec.clones.symm.trans hcl)
    exact ⟨hrec.timers.trans ht, hrec.results.trans hr, rfl, rfl⟩
  case timers => simpa [hrec.timers] using h.timers
  case fresh =>
    intro hs
    cases hs
  case armed => exact fun _ _ => rfl
  case expire =>
    intro _ he
    cases he
  case event =>
    intro he
    cases he
  case running => simpa [hrec.timers] using h.running
  case zombie => simpa [hrec.ended] using h.zombie
  case result =>
    intro _ he
    cases he
  case results => simpa [hrec.results] using h.results
  case exited =>
    -- the command has been reaped: this event is late
    intro hex
    have hex : p.mgr.childStatus = .procExit := hex
    have ht := h.event hexp (by simp [hex])
    obtain ⟨st, hst, hrep⟩ := h.exited hex
    exact ⟨st, hrec.ended.trans hst, hrep.ended, by simp [hrec.timers, ht, Pc.expiring],
      hrep.retval⟩

theorem Outcome.dispatch (h : Outcome p) {evs : List Int} {hi : History}
    (hpc : p.mgr.pc = .dispatch evs) (hrec : SameRecord p.hist hi) :
    Outcome { mgr := p.mgr.goto (p.mgr.dispatch evs), children := p.children, hist := hi } := by
  have hexp : p.mgr.pc.expiring = false := by rw [hpc]; rfl
  obtain ⟨hset, hexp', hexpire, hresult⟩ : (p.mgr.dispatch evs).setup = false ∧
      (p.mgr.dispatch evs).expiring = false ∧
      (∀ evs', p.mgr.dispatch evs = .stopChild (.timer evs') → p.mgr.timerfd ≠ -1) ∧
      ∀ a, p.mgr.dispatch evs ≠ .send a .result :=
    Manager.dispatch_pc (by simp [Pc.setup, Pc.expiring]) (by simp [Pc.setup, Pc.expiring])
      (by simp [Pc.setup, Pc.expiring]) (fun _ hfd => by simp [Pc.setup, Pc.expiring, hfd])
      (by simp [Pc.setup, Pc.expiring])
  exact h.frame hrec hexp rfl rfl (Or.inl rfl) (fun hs => by simp [hset] at hs) hexp' hexpire
    fun a ha => absurd ha (hresult a)

theorem Outcome.loopCheck (h : Outcome p) {hi : History}
    (hpc : p.mgr.pc = .loopCheck) (hrec : SameRecord p.hist hi) :
    Outcome { mgr := p.mgr.goto p.mgr.loopCheck, children := p.children, hist := hi } := by
  have hexp : p.mgr.pc.expiring = false := by rw [hpc]; rfl
  obtain ⟨hset, hexp', hexpire, hresult⟩ : p.mgr.loopCheck.setup = false ∧
      p.mgr.loopCheck.expiring = false ∧ (∀ evs, p.mgr.loopCheck ≠ .stopChild (.timer evs)) ∧
      ∀ a, p.mgr.loopCheck = .send a .result → p.mgr.childStatus = .procExit ∧
        a.getResponse.stat = p.mgr.response.stat ∧
        a.getResponse.retval = p.mgr.response.retval := by
    refine Manager.loopCheck_pc (by simp [Pc.setup, Pc.expiring]) (fun hover _ _ => ?_)
      (fun _ => by simp [Pc.setup, Pc.expiring])
    refine ⟨rfl, rfl, by simp, fun a ha => ?_⟩
    cases ha
    have hex : p.mgr.childStatus = .procExit := by
      simp only [Manager.execOver, Bool.and_eq_true, decide_eq_true_eq] at hover
      exact hover.1.1
    exact ⟨hex, rfl, rfl⟩
  exact h.frame hrec hexp rfl rfl (Or.inl rfl) (fun hs => by simp [hset] at hs) hexp'
    (fun evs he => absurd he (hexpire evs)) hresult

/-- The first command: nothing has happened to it yet. -/
theorem Outcome.clone (h : Outcome p) (hcore : Core p) {pid : Int} {data : Bytes} {evs : List Int}
    {hi : History} (hpc : p.mgr.pc = .handle .clone data evs) (hzero : p.hist.clones = 0)
    (hhi : hi = { p.hist with
      clones := p.hist.clones + 1, command := some ⟨pid, data, false⟩ }) :
    Outcome { mgr := { p.mgr with
                clonepid := pid, childStatus := .procRunning, pc := .handle .leaf data evs }
              children := (pid, .alive) :: p.children, hist := hi } := by
  subst hhi
  obtain ⟨ht, hr, hfd, -⟩ := h.idle hzero
  have hch := hcore.idle (hcore.quiet (Or.inr (by rw [hpc]; rfl)))
  constructor
  case idle => simp
  case timers => exact h.timers
  case fresh => exact fun _ => ht
  case armed => exact fun _ _ => hfd
  case expire =>
    intro _ he
    cases he
  case event =>
    intro he
    cases he
  case running => exact fun _ => by simp [ht]
  case zombie =>
    intro pid' st hm
    simp [hch] at hm
  case exited =>
    intro he
    cases he
  case result =>
    intro _ he
    cases he
  case results => exact h.results

/-- The result is written: it says what the response says. -/
theorem Outcome.answered (h : Outcome p) (hbase : Base p) {m : Message} {hi : History}
    (hpc : p.mgr.pc = .send m .result)
    (hhi : hi = histSent p.hist m .result) {s : Bool} :
    Outcome { mgr := { p.mgr with resultSendback := s, pc := .stopCheck }
              children := p.children, hist := hi } := by
  subst hhi
  obtain ⟨hex, hstat, hret⟩ := h.result m hpc
  obtain ⟨st, hst, hrep⟩ := h.exited hex
  have hexp : p.mgr.pc.expiring = false := by rw [hpc]; rfl
  constructor
  case idle =>
    intro hcl
    rw [hbase.cloned.mp hcl] at hex
    cases hex
  case timers => exact h.timers
  case fresh =>
    intro hs
    cases hs
  case armed => exact fun hne _ => h.armed hne hexp
  case expire =>
    intro _ he
    cases he
  case event =>
    intro he
    cases he
  case running => exact h.running
  case zombie => exact h.zombie
  case exited =>
    rw [hexp] at hrep
    exact fun _ => ⟨st, hst, hrep⟩
  case result =>
    intro _ he
    cases he
  case results =>
    intro a ha
    rcases List.mem_append.mp ha with ha | ha
    · exact h.results a ha
    · obtain rfl := List.mem_singleton.mp ha
      refine ⟨h.timers, st, hst, hrep.ended, ?_, fun code hc => hret.trans (hrep.retval code hc)⟩
      have := hrep.stat
      simpa [hstat, hexp, Answer.late] using this

theorem Outcome.step (hbase : Base p) (h : Outcome p) (hstep : Proc.Step E p ev p')
    (hone : p'.hist.clones ≤ 1) : Outcome p' := by
  have hcore := hbase.core
  cases hstep with
  | @exit pid st hc hst =>
    -- the only child becomes a zombie; the manager does not know of it yet
    obtain ⟨hrun, hch, -, -⟩ := hcore.mem_children hc
    refine ⟨h.idle, h.timers, h.fresh, h.armed, h.expire, h.event, h.running, fun pid' st' hm => ?_,
      fun hex => ?_, h.result, h.results⟩
    · rw [hch, List.map_singleton, if_pos rfl, List.mem_singleton] at hm
      cases hm
      exact ⟨rfl, hst⟩
    · exact absurd (hrun.symm.trans hex) (by simp)
  | mgr hadm hm =>
    cases hm with
    | sigterm =>
      rw [histAfter_sigterm]
      exact ⟨h.idle, h.timers, h.fresh, h.armed, h.expire, h.event, h.running, h.zombie, h.exited,
        h.result, h.results⟩
    | throws hl =>
      obtain ⟨hpc, hl⟩ := Pc.throwing_of_throws hl
      rw [childrenAfter_of_throwing hl]
      exact h.calm (histAfter_sameRecord_of_throwing hpc hl)
        (Pc.expiring_of_throwing (Or.inl hpc)) rfl rfl (Or.inl rfl) (by intro h; cases h) rfl
    | unlockThrow hpc =>
      exact h.plain (Pc.recording_of_unlockThrow hpc) (Pc.expiring_of_throwing (Or.inr hpc)) rfl rfl
        (Or.inl rfl) (by intro h; cases h) rfl
    | timerEvent hpc => exact h.timerEvent hpc (histAfter_sameRecord (by rw [hpc]; rfl))
    | reap hpc =>
      exact h.reap hcore (by simpa [admits] using hadm) (by rw [hpc]; rfl)
        (histAfter_sameRecord (by rw [hpc]; rfl))
    | @waitOther k pid st hpc hpid =>
      -- there is no other child that could be reaped
      have hmem : (pid, Life.zombie st) ∈ p.children := by simpa [admits] using hadm
      exact absurd (hcore.mem_children hmem).2.2.1.symm hpid
    | argsSurvive hpc =>
      exact h.plain (by rw [hpc]; rfl) (by rw [hpc]; rfl)
        (Manager.clearEntry_field Manager.childStatus fun _ _ => rfl)
        (Manager.clearEntry_field Manager.response fun _ _ => rfl)
        (Or.inl (Manager.clearEntry_field Manager.timerfd fun _ _ => rfl))
        (Manager.clearEntry_pc (by intro h; cases h) (by intro h; cases h))
        (Manager.clearEntry_pc rfl rfl)
    | @stopKill k hpc | @stopIdle k hpc =>
      cases k with
      | timer evs => exact h.expired hpc rfl (by simp [histAfter, hpc])
      | _ =>
        exact h.plain (by rw [hpc]; rfl) (by rw [hpc]; rfl) rfl rfl (Or.inl rfl)
          (by intro h; cases h) rfl
    | received hpc =>
      exact h.plain (by rw [hpc]; rfl) (by rw [hpc]; rfl)
        (Manager.received_field Manager.childStatus fun _ _ _ => rfl)
        (Manager.received_field Manager.response fun _ _ _ => rfl)
        (Or.inl (Manager.received_field Manager.timerfd fun _ _ _ => rfl))
        (Manager.received_pc (by intro h; cases h) (by intro h; cases h) (by intro h; cases h)
          (by intro h; cases h) (by intro h; cases h) (by intro h; cases h))
        (Manager.received_pc rfl rfl rfl rfl rfl rfl)
    | dispatch evs hpc => exact h.dispatch hpc (histAfter_sameRecord (by rw [hpc]; rfl))
    | loopCheck hpc => exact h.loopCheck hpc (histAfter_sameRecord (by rw [hpc]; rfl))
    | clone hpc hpid =>
      simp only [histAfter, hpc, if_neg hpid] at hone
      simp only [childrenAfter, if_neg hpid]
      exact h.clone hcore hpc (by omega) (by simp [histAfter, hpc, hpid])
    | cloneFail hpc =>
      exact h.calm (by simpa [histAfter, hpc] using SameRecord.refl _) (by rw [hpc]; rfl) rfl rfl
        (Or.inl rfl) (by intro h; cases h) rfl
    | @sent m k data hpc =>
      cases k with
      | result => exact h.answered hbase hpc (by simp [histAfter, hpc])
      | _ =>
        refine h.calm ?_ (by rw [hpc]; rfl) rfl rfl (Or.inl rfl) (by intro h; cases h) rfl
        simp only [histAfter, hpc, if_true]
        exact ⟨rfl, rfl, rfl, rfl⟩
    | sigpipe hpc =>
      exact h.calm (by simpa [histAfter, hpc] using SameRecord.refl _) (by rw [hpc]; rfl) rfl rfl
        (Or.inl rfl) (by intro h; cases h) rfl
    | @waitNone k hpc =>
      exact h.plain (by rw [hpc]; rfl) (by rw [hpc]; rfl) rfl rfl (Or.inl rfl)
        (by cases k <;> (intro h; cases h)) (by cases k <;> rfl)
    | _ =>
      have hpc := ‹p.mgr.pc = _›
      first
        | exact h.plain (by rw [hpc]; rfl) (by rw [hpc]; rfl) rfl rfl
            (Or.inr (Or.inr (by rw [hpc]; rfl))) (fun _ => by rw [hpc]; rfl) rfl
        | exact h.plain (by rw [hpc]; rfl) (by rw [hpc]; rfl) rfl rfl (Or.inl rfl)
            (by intro hs; cases hs) rfl
        | exact h.plain (by rw [hpc]; rfl) (by rw [hpc]; rfl) rfl rfl (Or.inr (Or.inl rfl))
            (by intro hs; cases hs) rfl

theorem Step.clones_le (hcore : Core p) (hstep : Proc.Step E p ev p') :
    p.hist.clones ≤ p'.hist.clones := by
  cases hstep.effect hcore with
  | quiet _ _ _ hcl => omega
  | clone _ _ _ _ _ _ hcl => omega
  | sent _ _ _ _ hcl => omega

/-- The invariant, as long as there is at most one command. -/
def FirstOutcome (p : Proc) : Prop := Base p ∧ (p.hist.clones ≤ 1 → Outcome p)

theorem FirstOutcome.step (h : FirstOutcome p) (hstep : Proc.Step E p ev p') : FirstOutcome p' := by
  obtain ⟨hbase, ho⟩ := h
  refine ⟨hbase.step hstep, fun hone => ?_⟩
  exact (ho (Nat.le_trans (hstep.clones_le hbase.core) hone)).step hbase hstep hone

theorem FirstOutcome.of_reachable {fd : ℕ}
    (h : Machine.Reachable (Proc.step E) (Proc.start fd) p) : FirstOutcome p :=
  h.invariant (fun _ _ _ hI hs => hI.step (step_cases hs))
    ⟨Base.start fd, fun _ => Outcome.start fd⟩

/-- **The result says what happened only if no timer event came at another moment
than between the end of the command and its reap.** -/
theorem result_correct_iff {fd : ℕ} (h : Machine.Reachable (Proc.step E) (Proc.start fd) p)
    (hone : p.hist.clones = 1) {a : Answer} (ha : a ∈ p.hist.results) :
    a.Correct ↔ ∀ ph ∈ a.timers, ph = .ended :=
  (((FirstOutcome.of_reachable h).2 (Nat.le_of_eq hone)).results a ha).correct_iff

/-- The timer expires while `/bin/ls` runs: the command is killed. -/
def killLabels : List Label := expireLabels ++ [.kill 100, .epollDel 7] ++ loopLabels

/-- It is reaped, and its result is written. -/
def timeoutEvents : List Event :=
  killLabels.map .mgr ++ lsEndEvents (.signaled 15) ++
    [Label.tau, .write [0x12, 2, 8, 2] (.wrote 4), .tau].map .mgr

/-- The result of this run has state ABNORMAL. -/
theorem exec_timeoutEvents :
    ∃ p, Machine.exec (Proc.step Proto3.env) (Proc.start 5) timeoutEvents = some p ∧
      p.hist.clones = 1 ∧
      p.hist.results = [⟨{ stat := .abnormal }, [.running], some (.signaled 15)⟩] := by
  obtain ⟨p, hrun, hp⟩ := Machine.exec_of_any
    (show (Machine.exec (Proc.step Proto3.env) (Proc.start 5) timeoutEvents).any
      (fun p => p.hist.clones == 1 && p.hist.results ==
        [⟨{ stat := .abnormal }, [.running], some (.signaled 15)⟩]) = true by decide +kernel)
  simp only [Bool.and_eq_true, beq_iff_eq] at hp
  exact ⟨p, hrun, hp.1, hp.2⟩

theorem result_correct_iff_timeout :
    ∃ p, Machine.exec (Proc.step Proto3.env) (Proc.start 5) timeoutEvents = some p ∧
      ∃ a ∈ p.hist.results, a.timers = [.running] ∧ ¬ a.Correct := by
  obtain ⟨p, hrun, hone, hres⟩ := exec_timeoutEvents
  refine ⟨p, hrun, _, by rw [hres]; exact List.mem_singleton.mpr rfl, rfl, fun hc => ?_⟩
  have ha := (result_correct_iff ⟨_, hrun⟩ hone (by rw [hres]; exact List.mem_singleton.mpr rfl)).mp
    hc .running (by simp)
  cases ha

/-- Not every result says what happened. -/
theorem result_not_correct :
    ¬ ∀ p, Machine.Reachable (Proc.step Proto3.env) (Proc.start 5) p → p.hist.clones = 1 →
      ∀ a ∈ p.hist.results, a.Correct := by
  intro hcorrect
  obtain ⟨p, hrun, hone, hres⟩ := exec_timeoutEvents
  have hc := hcorrect p ⟨_, hrun⟩ hone _ (by rw [hres]; exact List.mem_singleton.mpr rfl)
  simp [Answer.Correct] at hc

end Proc
end Srun
