import Srun.Ending
import Srun.Framework.Observer

/-!
# Requests that are refused

While a command runs, `handle_request` refuses a further EXE. By then `recv_message` has
stored the request of that EXE, overlaid by `loadRequest`, in the variable from which the
running command is governed until its end.

The observer keeps the governing variables as they are after every step that does not
belong to the handling of a refused EXE. `unharmed_iff` says that the variables always agree
with it, and that `wait_child` always finds an argument to log, exactly in the runs in which
every refused EXE carries, after `loadRequest`, the very request that is being executed.
-/

namespace Srun

/-- The variables that govern the running command. -/
structure Governing where
  request : Request
  response : Response
  childStatus : ProcessStatus
  clonepid : Int
  synTimeout : Int
  out : Output
  err : Output
  timerfd : Int
  deriving DecidableEq

def Manager.governing (s : Manager) : Governing where
  request := s.request
  response := s.response
  childStatus := s.childStatus
  clonepid := s.clonepid
  synTimeout := s.synTimeout
  out := s.out
  err := s.err
  timerfd := s.timerfd

namespace Proc

/-- The EXE that `recv_message` has read while a command runs. -/
def refusedExe (E : Env) (p : Proc) : Event → Option Message
  | .mgr (.read none) =>
    match p.mgr.pc with
    | .recv data _ =>
      if 0 < p.mgr.clonepid ∧ data ≠ [] then (E.parse data).filter (·.method = .exe) else none
    | _ => none
  | _ => none

/-- `handle_request` refuses. -/
def refuses (p : Proc) : Event → Bool
  | .mgr .tau =>
    match p.mgr.pc with
    | .handle .entry _ _ => 0 < p.mgr.clonepid
    | _ => false
  | _ => false

/-- The governing variables, as they would be without the refused EXE messages. -/
def governs (E : Env) (p : Proc) (ev : Event) (p' : Proc) (own : Governing) : Governing :=
  if (refusedExe E p ev).isSome ∨ refuses p ev = true then own else p'.mgr.governing

/-- The request that a refused EXE leaves behind is the one that is being executed. -/
def Repeats (E : Env) (p : Proc) (ev : Event) : Prop :=
  ∀ m ∈ refusedExe E p ev, (E.loadRequest m.getRequest).getD m.getRequest = p.mgr.request

instance (E : Env) (p : Proc) (ev : Event) : Decidable (Repeats E p ev) :=
  match hexe : refusedExe E p ev with
  | none => isTrue (by intro m hm; rw [hexe] at hm; cases hm)
  | some m =>
    decidable_of_iff ((E.loadRequest m.getRequest).getD m.getRequest = p.mgr.request)
      ⟨fun h m' hm' => by
        rw [hexe] at hm'
        obtain rfl := Option.some.inj hm'
        exact h, fun h => h m hexe⟩

/-- No refused EXE has changed what governs the running command, and its first argument is
there to be logged. -/
structure Unharmed (p : Proc) (own : Governing) : Prop where
  same : p.mgr.governing = own
  args : 0 < p.mgr.clonepid → p.mgr.request.args ≠ []
  logs : p.mgr.pc.logging = false

/-- What `handle_request` is about to execute has an argument. -/
structure Findable (p : Proc) : Prop where
  core : Core p
  found : p.mgr.pc.found = true → p.mgr.request.args ≠ []

variable {E : Env} {p p' : Proc} {ev : Event} {own : Governing}

theorem Findable.start (fd : ℕ) : Findable (start fd) :=
  ⟨Core.start fd, fun h => by simp [Proc.start, Pc.found] at h⟩

theorem Findable.step (h : Findable p) (hstep : Proc.Step E p ev p') : Findable p' := by
  refine ⟨h.core.step hstep, ?_⟩
  have no : ∀ {pc : Pc} {r : Request}, pc.found = false → pc.found = true → r.args ≠ [] := by
    intro pc r hno hfound
    rw [hno] at hfound
    cases hfound
  cases hstep with
  | exit => exact h.found
  | mgr hadm hm =>
    cases hm with
    | sigterm => exact h.found
    | findFound hpc hfind => exact fun _ => findCommand_args_ne_nil hfind
    | loadOut hpc | loadErr hpc => exact fun _ => h.found (by rw [hpc]; rfl)
    | waitOther hpc => exact h.found
    -- the other steps lead to points before the lookup or after the clone
    | loopCheck hpc => exact no (Manager.loopCheck_pc rfl (fun _ _ _ => rfl) fun _ => rfl)
    | dispatch evs hpc =>
      exact no (Manager.dispatch_pc rfl (fun _ => rfl) (fun _ _ => rfl) (fun _ _ => rfl)
        fun _ => rfl)
    | received hpc => exact no (Manager.received_pc rfl rfl rfl rfl rfl rfl)
    | reap hpc => exact no (Manager.reaped_pc rfl rfl rfl)
    | argsSurvive hpc => exact no (Manager.clearEntry_pc rfl rfl)
    | @waitNone k hpc => exact no (by cases k <;> rfl)
    | @stopKill k hpc | @stopIdle k hpc => exact no (by cases k <;> rfl)
    | @sent m k data hpc => exact no (by cases k <;> rfl)
    | _ => exact no rfl

/-- **Frame rule.** A step that leaves the arguments alone. -/
theorem Unharmed.frame (h : Unharmed p own) {m : Manager} {cs : List (Int × Life)} {hi : History}
    {own' : Governing} (hsame : m.governing = own')
    (hargs : m.request.args = p.mgr.request.args) (hclone : 0 < m.clonepid → 0 < p.mgr.clonepid)
    (hlog : m.pc.logging = false) : Unharmed { mgr := m, children := cs, hist := hi } own' := by
  refine ⟨hsame, fun hpos => ?_, hlog⟩
  show m.request.args ≠ []
  rw [hargs]
  exact h.args (hclone hpos)

/-- The reap of a command that has an argument. -/
theorem reaped_logging {s : Manager} {st : WaitStatus} {k : WaitRet} (h : s.request.args ≠ []) :
    (s.reaped st k).pc.logging = false := by
  cases st with
  | signaled sig =>
    simp only [Manager.reaped, if_neg h]
    exact Manager.clearEntry_pc rfl rfl
  | _ => exact Manager.clearEntry_pc rfl rfl

/-- Only an EXE changes the arguments of the stored request. -/
theorem received_args {s : Manager} {data : Bytes} {m : Message} {evs : List Int}
    (h : m.method ≠ .exe) :
    (Manager.received E s data m evs).request.args = s.request.args := by
  unfold Manager.received
  -- the branch of EXE is the only one that stores a request
  split
  case h_3 heq => exact absurd heq h
  all_goals rfl

/-- A step that does not store the request of a refused EXE does no harm. -/
theorem Unharmed.step (h : Unharmed p own) (hfind : Findable p)
    (hexe : refusedExe E p ev = none) (hstep : Proc.Step E p ev p') :
    Unharmed p' (governs E p ev p' own) := by
  by_cases href : refuses p ev = true
  · -- `handle_request` returns at once
    have hown : governs E p ev p' own = own := if_pos (Or.inr href)
    rw [hown]
    unfold refuses at href
    split at href
    · split at href
      · next data evs hpc =>
        have hpos : 0 < p.mgr.clonepid := of_decide_eq_true href
        cases hstep with
        | mgr hadm hm =>
          cases hm with
          | handleReject hpc' => exact h.frame h.same rfl id rfl
          | handleAccept hpc' hle => exact absurd hpos (Int.not_lt.mpr hle)
          | throws hl => rw [hpc] at hl; cases hl
          | _ => rw [‹p.mgr.pc = _›] at hpc; cases hpc
      · cases href
    · cases href
  · have hown : governs E p ev p' own = p'.mgr.governing := by
      apply if_neg
      rw [hexe]
      simpa using href
    rw [hown]
    cases hstep with
    | exit => exact ⟨rfl, h.args, h.logs⟩
    | @mgr l m hadm hm =>
      cases hm with
      | sigterm => exact ⟨rfl, h.args, h.logs⟩
      | waitOther => exact ⟨rfl, h.args, h.logs⟩
      | throws hl => exact h.frame rfl rfl id rfl
      | unlockThrow hpc => exact h.frame rfl rfl id rfl
      | argsDie hpc | argsSurvive hpc =>
        have hlogs := h.logs
        rw [hpc] at hlogs
        cases hlogs
      | @reap k st hpc =>
        obtain ⟨-, -, -, hpos⟩ := hfind.core.mem_children (of_decide_eq_true hadm)
        have hargs := h.args hpos
        refine ⟨rfl, fun _ => ?_, reaped_logging hargs⟩
        rwa [Manager.reaped_field Manager.request fun _ _ _ _ => rfl]
      | @received data evs m hpc hdata hm =>
        have hlog : (Manager.received E p.mgr data m evs).pc.logging = false :=
          Manager.received_pc rfl rfl rfl rfl rfl rfl
        have hclone : (Manager.received E p.mgr data m evs).clonepid = p.mgr.clonepid :=
          Manager.received_field Manager.clonepid fun _ _ _ => rfl
        by_cases hpos : 0 < p.mgr.clonepid
        · -- the message is no EXE
          have hmethod : m.method ≠ .exe := by
            simpa [refusedExe, hpc, hpos, hdata, hm] using hexe
          exact h.frame rfl (received_args hmethod) (fun hc => by rwa [hclone] at hc) hlog
        · refine ⟨rfl, fun hc => ?_, hlog⟩
          have hc : 0 < (Manager.received E p.mgr data m evs).clonepid := hc
          rw [hclone] at hc
          exact absurd hc hpos
      | findFound hpc hfound =>
        exact ⟨rfl, fun _ => findCommand_args_ne_nil hfound, rfl⟩
      | clone hpc hpid => exact ⟨rfl, fun _ => hfind.found (by rw [hpc]; rfl), rfl⟩
      | cloneFail hpc => exact ⟨rfl, fun hpos => (by cases hpos), rfl⟩
      | loopCheck hpc =>
        exact h.frame rfl rfl id (Manager.loopCheck_pc rfl (fun _ _ _ => rfl) fun _ => rfl)
      | dispatch evs hpc =>
        exact h.frame rfl rfl id (Manager.dispatch_pc rfl (fun _ => rfl) (fun _ _ => rfl)
          (fun _ _ => rfl) fun _ => rfl)
      | @waitNone k hpc => exact h.frame rfl rfl id (by cases k <;> rfl)
      | @stopKill k hpc | @stopIdle k hpc => exact h.frame rfl rfl id (by cases k <;> rfl)
      | @sent m k data hpc => exact h.frame rfl rfl id (by cases k <;> rfl)
      | _ => exact h.frame rfl rfl id rfl

/-- The state after a refused EXE has been read. -/
theorem step_refusedExe {m : Message} (hexe : refusedExe E p ev = some m)
    (hstep : p.step E ev = some p') :
    p'.mgr.governing = { p.mgr.governing with
      request := (E.loadRequest m.getRequest).getD m.getRequest } ∧ p'.mgr.pc.logging = false := by
  unfold refusedExe at hexe
  split at hexe
  · split at hexe
    · next data evs hpc =>
      split at hexe
      · next hcond =>
        obtain ⟨hm, hmethod⟩ := Option.filter_eq_some_iff.mp hexe
        have hmethod : m.method = .exe := of_decide_eq_true hmethod
        obtain ⟨s, hs, rfl⟩ := Option.map_eq_some_iff.mp hstep
        have hs : Manager.received E p.mgr data m evs = s := by
          simpa [Manager.step, Manager.codeStep, hpc, Manager.recvMessage, hcond.2, hm] using hs
        subst hs
        refine ⟨?_, Manager.received_pc rfl rfl rfl rfl rfl rfl⟩
        unfold Manager.received
        rw [hmethod]
        cases E.loadRequest m.getRequest <;> rfl
      · cases hexe
    · cases hexe
  · cases hexe

/-- **One step.** Under the invariant, a step does no harm unless it stores another request
than the one that is being executed. -/
theorem Unharmed.step_iff (h : Unharmed p own) (hfind : Findable p)
    (hstep : p.step E ev = some p') :
    Unharmed p' (governs E p ev p' own) ↔ Repeats E p ev := by
  cases hexe : refusedExe E p ev with
  | none =>
    exact iff_of_true (h.step hfind hexe (step_cases hstep))
      fun m hm => by rw [hexe] at hm; cases hm
  | some m =>
    obtain ⟨hgov, hlog⟩ := step_refusedExe hexe hstep
    -- this step belongs to a refused EXE, so the observer keeps what it had
    have hown : governs E p ev p' own = p.mgr.governing := by
      rw [h.same]
      exact if_pos (Or.inl (by rw [hexe]; rfl))
    rw [hown]
    constructor
    · rintro hun m' hm'
      rw [hexe] at hm'
      obtain rfl := Option.some.inj hm'
      have hsame := hgov.symm.trans hun.same
      -- of the governing variables only the request has been written
      exact congrArg Governing.request hsame
    · intro hrep
      have hreq := hrep m hexe
      rw [hreq] at hgov
      have hgov : p'.mgr.governing = p.mgr.governing := hgov
      refine ⟨hgov, fun hpos => ?_, hlog⟩
      have hrequest : p'.mgr.request = p.mgr.request := congrArg Governing.request hgov
      have hclone : p'.mgr.clonepid = p.mgr.clonepid := congrArg Governing.clonepid hgov
      rw [hrequest]
      exact h.args (hclone ▸ hpos)

/-- **A refused EXE changes nothing, if it repeats the request.** In a run the variables
that govern the running command are at all times what they would be without the refused EXE
messages, and the first argument of the request is there when it is logged, if and only if
each refused EXE carries, after `loadRequest`, the request that is being executed. -/
theorem unharmed_iff {fd : ℕ} {evs : List Event} {o : Machine.Observed Proc Governing}
    (hrun : Machine.exec (Machine.observe (Proc.step E) (governs E))
      ⟨start fd, (start fd).mgr.governing⟩ evs = some o) :
    Machine.Always (Machine.observe (Proc.step E) (governs E))
        (fun o => Unharmed o.state o.seen) ⟨start fd, (start fd).mgr.governing⟩ evs ↔
      Machine.StepsMeet (Proc.step E) (Repeats E) (start fd) evs := by
  have hmeet :
      Machine.StepsMeet (Machine.observe (Proc.step E) (governs E))
          (fun o ev => Repeats E o.state ev) ⟨start fd, (start fd).mgr.governing⟩ evs ↔
        Machine.StepsMeet (Proc.step E) (Repeats E) (start fd) evs := Machine.stepsMeet_observe
  rw [← hmeet]
  refine Machine.always_iff_stepsMeet (I := fun o => Findable o.state) (W := fun _ _ => True) ?_ ?_
    (Findable.start fd) ⟨rfl, fun hpos => (by cases hpos), rfl⟩ (.of_forall fun _ _ => trivial) hrun
  · intro o ev o' hI _ hstep
    exact hI.step (step_cases (Machine.step_of_observe hstep))
  · intro o ev o' hI hP _ hstep
    obtain ⟨hproc, hseen⟩ := Machine.observe_eq_some.mp hstep
    rw [hseen]
    exact hP.step_iff hI hproc

/-- While `/bin/ls` runs the client asks for it again. -/
theorem unharmed_iff_ls :
    Machine.Always (Machine.observe (Proc.step Proto3.env) (governs Proto3.env))
      (fun o => Unharmed o.state o.seen) ⟨start 5, (start 5).mgr.governing⟩
      ((lsLabels ++ receiveLabels lsData ++ [Label.tau]).map .mgr) := by
  obtain ⟨o, hrun, -⟩ := Machine.exec_of_any
    (show (Machine.exec (Machine.observe (Proc.step Proto3.env) (governs Proto3.env))
      ⟨start 5, (start 5).mgr.governing⟩
      ((lsLabels ++ receiveLabels lsData ++ [Label.tau]).map .mgr)).any (fun _ => true) = true by
        decide +kernel)
  exact (unharmed_iff hrun).mpr (by decide +kernel)

/-- While `/bin/ls` runs the client sends an EXE without arguments. It is refused, `/bin/ls`
is killed, and `wait_child` is about to log an argument that does not exist. -/
theorem not_unharmed :
    ¬ ∀ evs o, Machine.exec (Machine.observe (Proc.step Proto3.env) (governs Proto3.env))
      ⟨start 5, (start 5).mgr.governing⟩ evs = some o → Unharmed o.state o.seen := by
  intro hunharmed
  obtain ⟨o, hrun, ho⟩ := Machine.exec_of_any
    (show (Machine.exec (Machine.observe (Proc.step Proto3.env) (governs Proto3.env))
      ⟨start 5, (start 5).mgr.governing⟩
      ((lsLabels ++ receiveLabels ⟨[0x1a, 0], by decide, by decide⟩ ++
        .tau :: loopLabels).map .mgr ++
        .exit 100 (.signaled 9) :: [Label.epollWait .eintr, .tau,
          .waitpid (some (100, .signaled 9))].map .mgr)).any
      (fun o => o.state.mgr.pc.logging) = true by decide +kernel)
  rw [(hunharmed _ o hrun).logs] at ho
  cases ho

end Proc
end Srun
