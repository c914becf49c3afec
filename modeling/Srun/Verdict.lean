import Srun.Launch
import Srun.Outcome

/-!
# What NORMAL says about the command

`execute` ends the process in two ways: `exit(-1)` in its handler, after a call that throws,
and `abort()` after an `execv` that has returned. The manager sees a wait status only. The
first way gives it 255, which a program may return as well, and `wait_child` reports it as
NORMAL; the second gives it SIGABRT.

`Verdict` is `Launch` with what has become of the child: whether a call before `execv` has
failed, the wait status with which `execute` leaves, and the wait status of the program.
The end of the child is restricted to what these allow. `normal_iff` says that a NORMAL
result is about the program exactly when no call before `execv` has failed.
-/

namespace Srun

/-- A call before `execv` fails and throws. -/
def ChildLabel.fails : ChildLabel → Bool
  | .getpwnam _ none | .setgid _ false | .setuid _ false | .chdir _ false => true
  | _ => false

/-- The wait status with which `execute` ends the process after a call: that of
`exit(-1)`, or of `abort()` when `execv` has returned. -/
def ChildLabel.leaving (l : ChildLabel) : Option WaitStatus :=
  if l.fails then some (.exited 255) else if l = .loaded false then some (.signaled 6) else none

/-- The process ends normally. -/
def WaitStatus.isSignaled : WaitStatus → Bool
  | .signaled _ => true
  | _ => false

/-- The child ends exactly when `execute` leaves. -/
theorem Child.ended_iff_leaving {c c' : Child} {l : ChildLabel} (h : c.step l = some c') :
    c'.pc = .ended ↔ l.leaving ≠ none := by
  cases step_cases h with
  | unknown => exact iff_of_true rfl (by simp [ChildLabel.leaving, ChildLabel.fails])
  | setgid ok | setuid ok | chdir ok =>
    cases ok <;> simp [ChildLabel.leaving, ChildLabel.fails, proceed, goto]
  | loaded ok => cases ok <;> simp [ChildLabel.leaving, ChildLabel.fails, proceed, goto]
  | _ => exact iff_of_false (by simp [goto]) (by simp [ChildLabel.leaving, ChildLabel.fails])

/-- The result of the command is being sent. -/
def Pc.reporting : Pc → Bool
  | .send _ .result => true
  | _ => false

namespace Proc

variable {E : Env} {p p' : Proc} {ev : Event} {l : Label}

theorem histSent_ended {h : History} {m : Message} {k : SendRet} :
    (histSent h m k).ended = h.ended := by
  unfold histSent
  split <;> rfl

/-- The manager does not end its child. -/
theorem histAfter_ended : (p.histAfter E l).ended = p.hist.ended := by
  unfold histAfter
  split <;> first | rfl | (split <;> first | rfl | exact histSent_ended)

/-- What the response says about the end of the command, when it says NORMAL. -/
structure Reported (p : Proc) : Prop where
  zombie : ∀ pid st, (pid, .zombie st) ∈ p.children → p.hist.ended = some st
  exited : p.mgr.childStatus = .procExit → p.mgr.response.stat = .normal →
    ∃ code, p.hist.ended = some (.exited code) ∧
      p.mgr.response.retval = Int32.ofInt code.toNat
  result : ∀ m, p.mgr.pc = .send m .result → p.mgr.childStatus = .procExit ∧
    m.getResponse.stat = p.mgr.response.stat ∧ m.getResponse.retval = p.mgr.response.retval

theorem Reported.start (fd : ℕ) : Reported (start fd) where
  zombie := fun _ _ h => by simp [Proc.start] at h
  exited := fun h => by simp [Proc.start] at h
  result := fun _ h => by simp [Proc.start] at h

/-- **Frame rule.** A step that does not reap, and does not make the response NORMAL. -/
theorem Reported.frame (h : Reported p) {m : Manager}
    (hst : m.childStatus = .procExit → p.mgr.childStatus = .procExit)
    (hresp : m.response.stat = .normal → m.response = p.mgr.response)
    (hpc : m.pc.reporting = false) :
    Reported { mgr := m, children := p.childrenAfter l, hist := p.histAfter E l } := by
  refine ⟨fun pid st hmem => ?_, fun hex hnormal => ?_, fun a ha => ?_⟩
  · show (p.histAfter E l).ended = some st
    rw [histAfter_ended]
    -- a zombie has been one before
    apply h.zombie pid st
    unfold childrenAfter at hmem
    split at hmem
    · exact List.mem_of_mem_erase hmem
    · split at hmem
      · exact hmem
      · simpa using hmem
    · exact hmem
  · obtain ⟨code, hended, hret⟩ := h.exited (hst hex) (by rw [← hresp hnormal]; exact hnormal)
    refine ⟨code, histAfter_ended.trans hended, ?_⟩
    show m.response.retval = _
    rw [hresp hnormal, hret]
  · have ha : m.pc = .send a .result := ha
    rw [ha] at hpc
    cases hpc

/-- `wait_child` makes the response NORMAL for an exit only. -/
theorem reaped_normal {s : Manager} {st : WaitStatus} {k : WaitRet}
    (h : (s.reaped st k).response.stat = .normal) :
    ∃ code, st = .exited code ∧ (s.reaped st k).response.retval = Int32.ofInt code.toNat := by
  cases st with
  | exited code => exact ⟨code, rfl, (reaped_reports (by simp)).retval code rfl⟩
  | signaled sig =>
    have hreports : (s.reaped (.signaled sig) k).response.Reports (.signaled sig) false :=
      reaped_reports (by simp)
    have habnormal := hreports.stat
    rw [h] at habnormal
    cases habnormal
  | other =>
    simp only [Manager.reaped] at h
    rw [Manager.clearEntry_field Manager.response fun _ _ => rfl] at h
    cases h

/-- The reap of the command. -/
theorem Reported.reap (h : Reported p) {st : WaitStatus} {k : WaitRet}
    (hmem : (p.mgr.clonepid, .zombie st) ∈ p.children) :
    Reported { mgr := p.mgr.reaped st k
               children := p.childrenAfter (.waitpid (some (p.mgr.clonepid, st)))
               hist := p.histAfter E (.waitpid (some (p.mgr.clonepid, st))) } := by
  refine ⟨fun pid st' hmem' => ?_, fun _ hnormal => ?_, fun a ha => ?_⟩
  · exact histAfter_ended.trans (h.zombie pid st' (List.mem_of_mem_erase hmem'))
  · obtain ⟨code, rfl, hret⟩ := reaped_normal hnormal
    exact ⟨code, histAfter_ended.trans (h.zombie _ _ hmem), hret⟩
  · have hpc : (p.mgr.reaped st k).pc.reporting = false := Manager.reaped_pc rfl rfl rfl
    have ha : (p.mgr.reaped st k).pc = .send a .result := ha
    rw [ha] at hpc
    cases hpc

theorem Reported.step (h : Reported p) (hcore : Core p) (hstep : Proc.Step E p ev p') :
    Reported p' := by
  cases hstep with
  | @exit pid st hc hst =>
    -- the child that ends was the only one
    obtain ⟨hrun, hch, -, -⟩ := hcore.mem_children hc
    refine ⟨fun pid' st' hmem => ?_, fun hex => ?_, h.result⟩
    · simp only [hch, List.map_cons, if_true, List.map_nil, List.mem_singleton, Prod.mk.injEq,
        Life.zombie.injEq] at hmem
      rw [hmem.2]
    · have hex : p.mgr.childStatus = .procExit := hex
      rw [hrun] at hex
      cases hex
  | mgr hadm hm =>
    cases hm with
    | sigterm trusted =>
      rw [histAfter_sigterm]
      exact ⟨h.zombie, h.exited, h.result⟩
    | throws hl => exact h.frame id (fun _ => rfl) rfl
    | @reap k st hpc => exact h.reap (of_decide_eq_true hadm)
    | loopCheck hpc =>
      by_cases hrep : p.mgr.loopCheck.reporting = false
      · exact h.frame id (fun _ => rfl) hrep
      · -- the result is made of the response
        obtain ⟨hexit, hmsg⟩ : p.mgr.childStatus = .procExit ∧
            p.mgr.loopCheck = .send p.mgr.resultMessage .result := by
          revert hrep
          refine Manager.loopCheck_pc (fun h => absurd rfl h) (fun hover _ _ _ => ⟨?_, rfl⟩)
            fun _ h => absurd rfl h
          simp only [Manager.execOver, Bool.and_eq_true, decide_eq_true_eq] at hover
          exact hover.1.1
        refine ⟨fun pid st hmem => histAfter_ended.trans (h.zombie pid st hmem), fun _ hn => ?_,
          fun a ha => ⟨hexit, ?_⟩⟩
        · obtain ⟨code, hended, hret⟩ := h.exited hexit hn
          exact ⟨code, histAfter_ended.trans hended, hret⟩
        · have ha : p.mgr.loopCheck = .send a .result := ha
          rw [hmsg] at ha
          cases ha
          exact ⟨rfl, rfl⟩
    | timerEvent hpc => exact h.frame id (fun hn => (by cases hn)) rfl
    | clone hpc hpid => exact h.frame (fun hex => (by cases hex)) (fun _ => rfl) rfl
    | waitOther hpc => exact h.frame id (fun _ => rfl) (by rw [hpc]; rfl)
    | argsSurvive hpc =>
      refine h.frame ?_ (fun _ => ?_) (Manager.clearEntry_pc rfl rfl)
      · rw [Manager.clearEntry_field Manager.childStatus fun _ _ => rfl]
        exact id
      · exact Manager.clearEntry_field Manager.response fun _ _ => rfl
    | received hpc hdata hparse =>
      refine h.frame ?_ (fun _ => ?_) (Manager.received_pc rfl rfl rfl rfl rfl rfl)
      · rw [Manager.received_field Manager.childStatus fun _ _ _ => rfl]
        exact id
      · exact Manager.received_field Manager.response fun _ _ _ => rfl
    | dispatch evs hpc =>
      exact h.frame id (fun _ => rfl) (Manager.dispatch_pc rfl (fun _ => rfl) (fun _ _ => rfl)
        (fun _ _ => rfl) fun _ => rfl)
    | @waitNone k hpc => exact h.frame id (fun _ => rfl) (by cases k <;> rfl)
    | @stopKill k hpc | @stopIdle k hpc => exact h.frame id (fun _ => rfl) (by cases k <;> rfl)
    | @sent m k data hpc => exact h.frame id (fun _ => rfl) (by cases k <;> rfl)
    | _ => exact h.frame id (fun _ => rfl) rfl

end Proc

/-- A launch, and what has become of the child cloned last. -/
structure Verdict where
  launch : Launch
  /-- A call of `execute` before `execv` has failed. -/
  failed : Bool := false
  /-- The wait status with which `execute` ends the process, once it does. -/
  leaving : Option WaitStatus := none
  /-- How the program has ended that `execv` has loaded. -/
  program : Option WaitStatus := none

namespace Verdict

def start (fd : ℕ) : Verdict := { launch := Launch.start fd }

/-- How a child can end: the program as it likes, `execute` as it leaves, and both by a
signal. -/
def admits (s : Verdict) : LaunchEvent → Bool
  | .exit st => s.launch.child.pc = .command || s.leaving = some st || st.isSignaled
  | _ => true

/-- What has become of the child after an event. -/
def after (s : Verdict) (ev : LaunchEvent) (n : Launch) : Verdict :=
  match ev with
  | .server (.clone pid) => if pid = -1 then { s with launch := n } else { launch := n }
  | .child l =>
    if l.leaving = none then { s with launch := n }
    else { s with launch := n, failed := l.fails, leaving := l.leaving }
  | .exit st =>
    if s.launch.child.pc = .command then { s with launch := n, program := some st }
    else { s with launch := n }
  | _ => { s with launch := n }

/-- One step. -/
def step (E : Env) (s : Verdict) (ev : LaunchEvent) : Option Verdict :=
  if s.admits ev then (s.launch.step E ev).map (s.after ev) else none

variable {E : Env} {s s' : Verdict} {ev : LaunchEvent}

theorem step_eq_some : s.step E ev = some s' ↔
    s.admits ev = true ∧ ∃ n, s.launch.step E ev = some n ∧ s' = s.after ev n := by
  unfold step
  rw [Option.ite_none_right_eq_some, Option.map_eq_some_iff]
  exact and_congr_right fun _ => exists_congr fun _ => and_congr_right fun _ => eq_comm

/-- What the end of a command, as the manager sees it, tells about the child. -/
structure Told (s : Verdict) : Prop where
  core : Proc.Core s.launch.proc
  reported : Proc.Reported s.launch.proc
  failed : s.failed = true ↔ s.leaving = some (.exited 255)
  /-- `execute` leaves by `exit(-1)` or by a signal. -/
  leaving : ∀ st, s.leaving = some st → st = .exited 255 ∨ st.isSignaled = true
  /-- A child that is there has not run a program to its end. -/
  alive : s.launch.alive = true → s.program = none ∧
    (s.launch.child.pc = .ended ↔ s.leaving ≠ none)
  /-- The last child has ended as its program, as `execute` has left, or by a signal. -/
  ended : s.launch.proc.mgr.childStatus ≠ .noProc → s.launch.alive = false →
    ∃ st, s.launch.proc.hist.ended = some st ∧
      ((s.program = some st ∧ s.leaving = none) ∨
        (s.program = none ∧ (s.leaving = some st ∨ st.isSignaled = true)))

theorem Told.start (fd : ℕ) : Told (start fd) where
  core := Proc.Core.start fd
  reported := Proc.Reported.start fd
  failed := by simp [Verdict.start]
  leaving := fun _ h => by simp [Verdict.start] at h
  alive := fun h => by simp [Verdict.start, Launch.start, Proc.start, Launch.alive] at h
  ended := fun h => absurd rfl h

/-- A step of the manager that clones nothing leaves the living child alone. -/
theorem mem_childrenAfter_iff {p : Proc} {l : Label} {pid : Int}
    (hl : ∀ pid, l = .clone pid → pid = -1) :
    (pid, Life.alive) ∈ p.childrenAfter l ↔ (pid, .alive) ∈ p.children := by
  unfold Proc.childrenAfter
  split
  · exact List.mem_erase_of_ne (by simp)
  · rw [if_pos (hl _ rfl)]
  · exact Iff.rfl

/-- Only a clone makes a first command. -/
theorem childStatus_ne_noProc {p p' : Proc} {l : Label} (hcore : Proc.Core p)
    (hl : ∀ pid, l = .clone pid → pid = -1) (hstep : Proc.Step E p (.mgr l) p')
    (h : p'.mgr.childStatus ≠ .noProc) : p.mgr.childStatus ≠ .noProc := by
  cases hstep with
  | mgr hadm hm =>
    cases hm with
    | reap hpc =>
      have hmem := hcore.mem_children (of_decide_eq_true hadm)
      rw [hmem.1]
      simp
    | clone hpc hpid => exact absurd (hl _ rfl) hpid
    | argsSurvive hpc => rwa [Manager.clearEntry_field Manager.childStatus fun _ _ => rfl] at h
    | received hpc =>
      rwa [Manager.received_field Manager.childStatus fun _ _ _ => rfl] at h
    | _ => exact h

theorem after_of_ne_clone {l : Label} {n : Launch} (hl : ∀ pid, l = .clone pid → pid = -1) :
    s.after (.server l) n = { s with launch := n } := by
  unfold after
  split
  · next heq =>
    cases heq
    exact if_pos (hl _ rfl)
  · next heq => cases heq
  · next heq => cases heq
  · rfl

/-- The manager takes a step. -/
theorem Told.server (h : Told s) {l : Label} {p : Proc}
    (hstep : Proc.Step E s.launch.proc (.mgr l) p) :
    Told (s.after (.server l) { s.launch.kernel l with proc := p }) := by
  have hcore := h.core.step hstep
  have hreported := h.reported.step h.core hstep
  by_cases hl : ∀ pid, l = .clone pid → pid = -1
  · -- the child is the one that it was
    obtain ⟨hchild, hpid⟩ := Launch.kernel_of_ne_clone (s := s.launch) hl
    have halive : ({ s.launch.kernel l with proc := p } : Launch).alive = s.launch.alive := by
      cases hstep with
      | mgr hadm hm =>
        show decide (((s.launch.kernel l).pid, Life.alive) ∈ s.launch.proc.childrenAfter l) = _
        rw [hpid]
        exact decide_eq_decide.mpr (mem_childrenAfter_iff hl)
    rw [after_of_ne_clone hl]
    refine ⟨hcore, hreported, h.failed, h.leaving, fun ha => ?_, fun hst ha => ?_⟩
    · show s.program = none ∧ ((s.launch.kernel l).child.pc = .ended ↔ s.leaving ≠ none)
      rw [hchild]
      exact h.alive (halive.symm.trans ha)
    · obtain ⟨st, hended, hcases⟩ :=
        h.ended (childStatus_ne_noProc h.core hl hstep hst) (halive.symm.trans ha)
      refine ⟨st, ?_, hcases⟩
      cases hstep with
      | mgr hadm hm => exact Proc.histAfter_ended.trans hended
  · -- a new child
    obtain ⟨pid, rfl, hne⟩ : ∃ pid, l = .clone pid ∧ pid ≠ -1 := by
      by_contra hno
      exact hl fun pid hpid => by_contra fun hne => hno ⟨pid, hpid, hne⟩
    have hafter : s.after (.server (.clone pid)) { s.launch.kernel (.clone pid) with proc := p } =
        { launch := { s.launch.kernel (.clone pid) with proc := p } } := if_neg hne
    have hkernel : (s.launch.kernel (.clone pid)).pid = pid ∧
        (s.launch.kernel (.clone pid)).child.pc = .dupOut := by
      rw [Launch.kernel, if_neg hne]
      exact ⟨rfl, rfl⟩
    have halive : ({ s.launch.kernel (.clone pid) with proc := p } : Launch).alive = true := by
      cases hstep with
      | mgr hadm hm =>
        show decide (_ ∈ s.launch.proc.childrenAfter (.clone pid)) = true
        rw [hkernel.1, Proc.childrenAfter, if_neg hne]
        exact decide_eq_true List.mem_cons_self
    rw [hafter]
    -- nothing is known of the new child but that it is at its first point
    refine ⟨hcore, hreported, by simp, fun _ hleaving => (by cases hleaving), fun _ => ⟨rfl, ?_⟩,
      fun _ ha => ?_⟩
    · show (s.launch.kernel (.clone pid)).child.pc = .ended ↔ _
      rw [hkernel.2]
      simp
    · have ha : ({ s.launch.kernel (.clone pid) with proc := p } : Launch).alive = false := ha
      rw [halive] at ha
      cases ha

/-- The child takes a step in `execute`. -/
theorem Told.child (h : Told s) {l : ChildLabel} {c : Child} (halive : s.launch.alive = true)
    (hc : s.launch.child.step l = some c) :
    Told (s.after (.child l) { s.launch with child := c }) := by
  have hended := Child.ended_iff_leaving hc
  have hprogram := (h.alive halive).1
  have hdead : ∀ n : Launch, n.pid = s.launch.pid → n.proc = s.launch.proc → n.alive ≠ false := by
    intro n hpid hproc hdead
    rw [Launch.alive, hpid, hproc] at hdead
    rw [Launch.alive] at halive
    rw [halive] at hdead
    cases hdead
  -- `execute` has not left before, since it takes a step
  have hrunning : s.leaving = none := by
    by_contra hne
    have hpc := (h.alive halive).2.mpr hne
    cases Child.step_cases hc <;> simp_all
  by_cases hl : l.leaving = none
  · have hafter : s.after (.child l) { s.launch with child := c } =
        { s with launch := { s.launch with child := c } } := if_pos hl
    rw [hafter]
    refine ⟨h.core, h.reported, h.failed, h.leaving, fun _ => ⟨hprogram, ?_⟩,
      fun _ hd => absurd hd (hdead _ rfl rfl)⟩
    show c.pc = .ended ↔ s.leaving ≠ none
    rw [hended, hl, hrunning]
  · have hafter : s.after (.child l) { s.launch with child := c } =
        { s with
          launch := { s.launch with child := c }, failed := l.fails, leaving := l.leaving } :=
      if_neg hl
    rw [hafter]
    refine ⟨h.core, h.reported, ?_, fun st hst => ?_, fun _ => ⟨hprogram, hended⟩,
      fun _ hd => absurd hd (hdead _ rfl rfl)⟩
    · show l.fails = true ↔ l.leaving = some (.exited 255)
      unfold ChildLabel.leaving
      cases l.fails <;> simp
    · have hst : l.leaving = some st := hst
      unfold ChildLabel.leaving at hst
      split_ifs at hst <;> cases hst
      · exact Or.inl rfl
      · exact Or.inr rfl

/-- The child ends. -/
theorem Told.exit (h : Told s) {st : WaitStatus} {p : Proc} (hadm : s.admits (.exit st) = true)
    (hstep : Proc.Step E s.launch.proc (.exit s.launch.pid st) p) :
    Told (s.after (.exit st) { s.launch with proc := p, child.pc := .ended }) := by
  have hcore := h.core.step hstep
  have hreported := h.reported.step h.core hstep
  cases hstep with
  | exit hc hst =>
    obtain ⟨hprogram, hleft⟩ := h.alive (decide_eq_true hc)
    obtain ⟨-, hch, -, -⟩ := h.core.mem_children hc
    -- it was the only child, and it is a zombie now
    have hdead : (s.launch.pid, Life.alive) ∉ s.launch.proc.children.map fun c =>
        if c = (s.launch.pid, .alive) then (s.launch.pid, .zombie st) else c := by
      simp [hch]
    unfold after
    simp only
    split
    · -- the program ends; `execute` had loaded it and never left
      next hcommand =>
      have hnone : s.leaving = none := by
        by_contra hne
        rw [hleft.mpr hne] at hcommand
        cases hcommand
      exact ⟨hcore, hreported, h.failed, h.leaving,
        fun ha => absurd (of_decide_eq_true ha) hdead, fun _ _ => ⟨st, rfl, Or.inl ⟨rfl, hnone⟩⟩⟩
    · -- the child ends in `execute`, as it leaves or by a signal
      next hcommand =>
      simp only [admits, hcommand, decide_false, Bool.false_or, Bool.or_eq_true,
        decide_eq_true_eq] at hadm
      exact ⟨hcore, hreported, h.failed, h.leaving,
        fun ha => absurd (of_decide_eq_true ha) hdead,
        fun _ _ => ⟨st, rfl, Or.inr ⟨hprogram, hadm⟩⟩⟩

theorem Told.step (h : Told s) (hstep : s.step E ev = some s') : Told s' := by
  obtain ⟨hadm, n, hn, rfl⟩ := step_eq_some.mp hstep
  cases ev with
  | server l =>
    obtain ⟨p, hp, rfl⟩ := Option.map_eq_some_iff.mp hn
    exact h.server (Proc.step_cases hp)
  | child l =>
    simp only [Launch.step] at hn
    split at hn
    · next halive =>
      obtain ⟨c, hc, rfl⟩ := Option.map_eq_some_iff.mp hn
      exact h.child halive hc
    · cases hn
  | exit st =>
    obtain ⟨p, hp, rfl⟩ := Option.map_eq_some_iff.mp hn
    exact h.exit hadm (Proc.step_cases hp)
  | fork =>
    simp only [Launch.step] at hn
    split at hn
    · cases hn
      exact ⟨h.core, h.reported, h.failed, h.leaving, h.alive, h.ended⟩
    · cases hn
  | refork i =>
    obtain ⟨d, -, rfl⟩ := Option.map_eq_some_iff.mp hn
    exact ⟨h.core, h.reported, h.failed, h.leaving, h.alive, h.ended⟩
  | gone i =>
    cases hn
    exact ⟨h.core, h.reported, h.failed, h.leaving, h.alive, h.ended⟩

/-- The program has run, and the response has its exit status. -/
def Ran (s : Verdict) (r : Response) : Prop :=
  ∃ code, s.program = some (.exited code) ∧ r.retval = Int32.ofInt code.toNat

/-- **What NORMAL says.** A result with state NORMAL is about the program, which has run
and whose exit status it gives, if and only if no call of `execute` before `execv` has
failed. -/
theorem normal_iff {fd : ℕ} {evs : List LaunchEvent} {m : Message}
    (hrun : Machine.exec (step E) (start fd) evs = some s)
    (hpc : s.launch.proc.mgr.pc = .send m .result) (hnormal : m.getResponse.stat = .normal) :
    Ran s m.getResponse ↔ s.failed = false := by
  have h : Told s := Machine.exec_invariant (fun _ _ _ h hs => Told.step h hs) (Told.start fd) hrun
  obtain ⟨hexit, hstat, hretval⟩ := h.reported.result m hpc
  obtain ⟨code, hended, hret⟩ := h.reported.exited hexit (hstat.symm.trans hnormal)
  have hidle : s.launch.proc.children = [] := h.core.idle (by rw [hexit]; simp)
  have hdead : s.launch.alive = false := by simp [Launch.alive, hidle]
  obtain ⟨st, hst, hcases⟩ := h.ended (by rw [hexit]; simp) hdead
  obtain rfl : st = .exited code := Option.some.inj (hst.symm.trans hended)
  rcases hcases with ⟨hprogram, hleaving⟩ | ⟨hprogram, hleft⟩
  · -- the program has ended so
    have hfailed : s.failed = false := by
      rw [Bool.eq_false_iff]
      intro hf
      rw [h.failed.mp hf] at hleaving
      cases hleaving
    exact iff_of_true ⟨code, hprogram, hretval.trans hret⟩ hfailed
  · -- `execute` has left, and not by a signal
    have hleaving : s.leaving = some (.exited 255) := by
      rcases hleft with hleft | hsig
      · rcases h.leaving _ hleft with heq | hsig
        · rw [hleft, heq]
        · cases hsig
      · cases hsig
    refine iff_of_false ?_ (by simp [h.failed.mpr hleaving])
    rintro ⟨c, hc, -⟩
    rw [hprogram] at hc
    cases hc

/-- The manager serves `/bin/ls`, whose process goes through `execute` as `child` says and
ends as `st`; the manager reaps it and is about to send the result. -/
def lsEvents (child : List ChildLabel) (st : WaitStatus) : List LaunchEvent :=
  Launch.cloneEvents ++ Launch.setupEvents ++ child.map .child ++
    Proc.loopLabels.map .server ++ .exit st :: (Proc.reapLabels 100 st ++ [Label.tau]).map .server

/-- `/bin/ls` is executed and exits with 0. -/
theorem normal_iff_ls :
    ∃ s m, Machine.exec (step Proto3.env) (start 5) (lsEvents Launch.childLabels (.exited 0)) =
        some s ∧
      s.launch.proc.mgr.pc = .send m .result ∧ m.getResponse.stat = .normal ∧
      Ran s m.getResponse := by
  obtain ⟨s, hrun, hs⟩ := Machine.exec_of_any
    (show (Machine.exec (step Proto3.env) (start 5)
      (lsEvents Launch.childLabels (.exited 0))).any
      (fun s => s.launch.proc.mgr.pc == .send s.launch.proc.mgr.resultMessage .result &&
        s.launch.proc.mgr.response.stat == .normal && !s.failed) = true by decide +kernel)
  simp only [Bool.and_eq_true, beq_iff_eq, Bool.not_eq_true'] at hs
  exact ⟨s, _, hrun, hs.1.1, hs.1.2, (normal_iff hrun hs.1.1 hs.1.2).mpr hs.2⟩

/-- There is no user `nobody`: `execute` exits with -1, and the result says NORMAL. -/
theorem not_normal_ran :
    ¬ ∀ evs s m, Machine.exec (step Proto3.env) (start 5) evs = some s →
      s.launch.proc.mgr.pc = .send m .result → m.getResponse.stat = .normal →
      Ran s m.getResponse := by
  intro hran
  obtain ⟨s, hrun, hs⟩ := Machine.exec_of_any
    (show (Machine.exec (step Proto3.env) (start 5)
      (lsEvents [.dup 1 none, .dup 2 none, .getpwnam "nobody" none] (.exited 255))).any
      (fun s => s.launch.proc.mgr.pc == .send s.launch.proc.mgr.resultMessage .result &&
        s.launch.proc.mgr.response.stat == .normal && s.program == none) = true by decide +kernel)
  simp only [Bool.and_eq_true, beq_iff_eq] at hs
  obtain ⟨code, hcode, -⟩ := hran _ s _ hrun hs.1.1 hs.1.2
  rw [hs.2] at hcode
  cases hcode

end Verdict
end Srun
