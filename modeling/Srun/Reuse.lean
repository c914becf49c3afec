import Srun.Agreement
import Srun.Descriptors
import Srun.Framework.View
import Srun.Manager.Unread
import Srun.Wakeup

/-!
# A further command on the same connection

A manager keeps its variables from one EXE to the next. `handle_request` looks at `clonepid`
only, and what it does not overwrite is what the first command has left there: the result
has been sent, the streams are over or hold an output, the timer is running.

When `handle_request` gets to the clone, the variables that are still going to be read may be
as they are in a manager that has just been forked (`Manager.unused`). Then the manager is
seen as a freshly forked one that has received nothing but this EXE (`view_fresh`). The steps
of such a manager up to its clone follow, one change of its descriptors after the other;
`Renewal` puts them together, next to what the kernel knows of the descriptors.
-/

namespace Srun

/-- Nothing of an earlier command is left in the stream that is going to be read: no content
and no file, and it is not over before it is bound; a stream without a pipe has no old one. -/
def Output.unused (o : Output) (mode : OutMode) (backend : Bool) : Bool :=
  o.str = [] && o.redirectFd = -1 &&
    if loadsPipe mode backend then !o.over else o.pipefd0 = -1 && o.pipefd1 = -1

/-- The pipe that `load` has opened for the stream. -/
def Output.pipe (o : Output) (mode : OutMode) (backend : Bool) : Option (Int × Int) :=
  if loadsPipe mode backend then some (o.pipefd0, o.pipefd1) else none

/-- The output of a manager that has just been forked, after `load` has opened the same pipe. -/
def Output.fresh (o : Output) (mode : OutMode) (path : String) (backend : Bool) : Output :=
  (({} : Output).load mode path backend true (o.pipe mode backend)).1

theorem Output.load_fresh (o : Output) (mode : OutMode) (path : String) (backend : Bool) :
    ({} : Output).load mode path backend true (o.pipe mode backend) =
      (o.fresh mode path backend, true) := by
  cases mode <;> cases backend <;> rfl

theorem Output.view_fresh {o : Output} {mode : OutMode} {backend : Bool} (path : String)
    (hmode : o.mode = mode) (h : o.unused mode backend = true) :
    o.view true = (o.fresh mode path backend).view true := by
  subst hmode
  obtain ⟨mode, pipefd0, pipefd1, redirectTo, redirectFd, ov, str⟩ := o
  simp only [Output.unused, Bool.and_eq_true, decide_eq_true_eq] at h
  obtain ⟨⟨rfl, -⟩, h⟩ := h
  -- with a pipe of its own the stream starts anew but for `over`; without one there is no pipe
  cases mode <;> cases backend <;>
    simp_all [Output.loadsPipe, Output.fresh, Output.pipe, Output.load, Output.openPipe,
      Output.view]

/-- The descriptors of a fresh stream are those of an unused one. -/
theorem Output.fds_fresh {o : Output} {mode : OutMode} {backend : Bool} (path : String)
    (h : o.unused mode backend = true) :
    (o.fresh mode path backend).pipefd0 = o.pipefd0 ∧
      (o.fresh mode path backend).pipefd1 = o.pipefd1 ∧
        (o.fresh mode path backend).redirectFd = o.redirectFd := by
  obtain ⟨mode', pipefd0, pipefd1, redirectTo, redirectFd, ov, str⟩ := o
  simp only [Output.unused, Bool.and_eq_true, decide_eq_true_eq] at h
  obtain ⟨⟨-, rfl⟩, h⟩ := h
  cases mode <;> cases backend <;>
    simp_all [Output.loadsPipe, Output.fresh, Output.pipe, Output.load, Output.openPipe]

theorem Output.load_mode (o : Output) (mode : OutMode) (path : String) (backend found : Bool)
    (pipe : Option (Int × Int)) : (o.load mode path backend found pipe).1.mode = mode := by
  cases mode <;> cases backend <;> cases found <;> cases pipe <;> rfl

/-- `load` has opened the pipe of the stream, if it is to have one. -/
def Output.Piped (o : Output) (mode : OutMode) (backend : Bool) : Prop :=
  loadsPipe mode backend = true → o.pipefd0 ≠ -1 ∧ o.pipefd1 ≠ -1

theorem Output.load_piped {o o' : Output} {mode : OutMode} {path : String} {backend found : Bool}
    {pipe : Option (Int × Int)} (h : o.load mode path backend found pipe = (o', true))
    (hpipe : ∀ r w, pipe = some (r, w) → r ≠ -1 ∧ w ≠ -1) : o'.Piped mode backend := by
  intro hloads
  have hopen : ∀ {o₁ : Output}, o₁.openPipe pipe = (o', true) →
      o'.pipefd0 ≠ -1 ∧ o'.pipefd1 ≠ -1 := by
    intro o₁ h
    cases pipe with
    | none => cases (Prod.mk.inj h).2
    | some p =>
      obtain rfl := (Prod.mk.inj h).1
      exact hpipe p.1 p.2 rfl
  cases mode with
  | msg =>
    cases backend with
    | true => cases hloads
    | false => exact hopen h
  | file =>
    cases found with
    | true => exact hopen h
    | false => cases (Prod.mk.inj h).2
  | _ => cases hloads

namespace Manager

/-- Nothing of an earlier command is left that is going to be read for this one. -/
def unused (s : Manager) : Bool :=
  (s.request.backend ||
    !s.resultSendback && { s.response with stat := .normal } = ({} : Response) &&
      s.synTimeout = 1000) &&
  s.out.unused s.request.outmode s.request.backend &&
  s.err.unused s.request.errmode s.request.backend &&
  s.timerfd = -1

/-- The variables of a manager that has just been forked, where `s` has cloned a command. -/
def fresh (s : Manager) : Manager where
  connection := s.connection
  clonepid := s.clonepid
  epollfd := s.epollfd
  out := s.out.fresh s.request.outmode s.request.outfile s.request.backend
  err := s.err.fresh s.request.errmode s.request.errfile s.request.backend
  synTimeout := if s.request.backend then -1 else 1000
  isSyn := s.isSyn
  childStatus := .procRunning
  request := s.request
  processStop := s.processStop
  pc := s.pc

variable {E : Env} {s s' : Manager} {l : Label}

/-- **What is left is not read.** -/
theorem view_fresh {data : Bytes} {rest : List Int} (hpc : s.pc = .handle .leaf data rest)
    (hrun : s.childStatus = .procRunning) (hunused : s.unused = true)
    (hsyn : s.request.backend = true → s.synTimeout = -1)
    (hout : s.out.mode = s.request.outmode) (herr : s.err.mode = s.request.errmode) :
    s.view = s.fresh.view := by
  simp only [unused, Bool.and_eq_true, Bool.or_eq_true, decide_eq_true_eq,
    Bool.not_eq_true'] at hunused
  obtain ⟨⟨⟨hresult, huout⟩, huerr⟩, htimer⟩ := hunused
  -- field by field; at this point the streams are not bound and the timer is not set
  have hunbound : ∀ b, s.pc.dead (HandlePoint.unbound b) = true := by
    intro b
    rw [hpc]
    rfl
  have hout' : s.view.out = s.fresh.view.out := by
    show s.out.view _ = s.fresh.out.view (s.pc.dead _)
    rw [hunbound]
    exact Output.view_fresh _ hout huout
  have herr' : s.view.err = s.fresh.view.err := by
    show s.err.view _ = s.fresh.err.view (s.pc.dead _)
    rw [hunbound]
    exact Output.view_fresh _ herr huerr
  have htimer' : s.view.timerfd = s.fresh.view.timerfd := by
    show (if s.untimed then -1 else s.timerfd) = if s.fresh.untimed then -1 else -1
    rw [ite_self]
    rw [htimer, ite_self]
  have hcloned : ∀ b, s.pc.answers b = b := by
    intro b
    rw [hpc]
    exact Bool.and_true b
  have hanswered : s.answered = s.fresh.answered := by
    show (s.resultSendback || s.pc.answers s.request.backend) =
      (false || s.pc.answers s.request.backend)
    rw [hcloned]
    -- for a backend command the flag is going to be set, so its value is dead
    rcases hresult with hback | ⟨⟨hsent, -⟩, -⟩
    · rw [hback, Bool.or_true, Bool.or_true]
    · rw [hsent]
  have hresponse : s.view.response = s.fresh.view.response := by
    show s.response.view s.answered (s.childStatus = .procRunning) =
      Response.view {} s.fresh.answered _
    rw [← hanswered, hrun]
    rcases hresult with hback | ⟨⟨-, hresp⟩, -⟩
    · have hans : s.answered = true := by
        rw [answered, hcloned, hback, Bool.or_true]
      rw [hans]
      rfl
    · cases s.answered with
      | true => rfl
      | false => exact hresp
  have hsynTimeout : s.synTimeout = s.fresh.synTimeout := by
    show s.synTimeout = if s.request.backend then -1 else 1000
    cases hback : s.request.backend with
    | true => exact hsyn hback
    | false => exact (hresult.resolve_left (by simp [hback])).2
  exact Same.view ⟨rfl, rfl, htimer', hout', herr', hsynTimeout, rfl, hanswered, hrun, hresponse,
    rfl, rfl, rfl⟩

/-! ### Up to the clone -/

/-- The message is an EXE and `loadRequest` makes `r` of its request. -/
def Asks (E : Env) (data : Bytes) (r : Request) : Prop :=
  data ≠ [] ∧ ∃ m, E.parse data = some m ∧ m.method = .exe ∧ E.loadRequest m.getRequest = some r

/-- Its command has been found. -/
def Finds (E : Env) (data : Bytes) (r : Request) : Prop :=
  ∃ r' fs, Asks E data r' ∧ findCommand fs r' = (true, r)

/-- What `handle_request` has prepared at its points before the clone. -/
def Stage (E : Env) (s : Manager) (data : Bytes) : HandlePoint → Prop
  | .entry => Asks E data s.request
  | .find => Asks E data s.request ∧ (s.request.backend = true → s.synTimeout = -1)
  | .loadOut => Finds E data s.request ∧ (s.request.backend = true → s.synTimeout = -1)
  | .loadErr =>
    Finds E data s.request ∧ (s.request.backend = true → s.synTimeout = -1) ∧
      s.out.mode = s.request.outmode ∧ s.out.Piped s.request.outmode s.request.backend
  | .clone =>
    Finds E data s.request ∧ (s.request.backend = true → s.synTimeout = -1) ∧
      (s.out.mode = s.request.outmode ∧ s.out.Piped s.request.outmode s.request.backend) ∧
        s.err.mode = s.request.errmode ∧ s.err.Piped s.request.errmode s.request.backend
  | _ => True

/-- What holds before the clone: the point has been prepared, and no other event of the batch
is one on the connection. -/
def Prepared (E : Env) (s : Manager) : Prop :=
  ∀ pt data rest, s.pc = .handle pt data rest →
    Stage E s data pt ∧ (pt.cloned = false → s.connection ∉ rest)

/-- The points of `handle_request` before the clone. -/
def preparing : Pc → Bool
  | .handle pt _ _ => !pt.cloned
  | _ => false

theorem Prepared.of_not_preparing (h : preparing s.pc = false) : Prepared E s := by
  intro pt data rest hpc
  rw [hpc] at h
  have hcloned : pt.cloned = true := by simpa [preparing] using h
  refine ⟨?_, fun hc => absurd hcloned (by simp [hc])⟩
  cases pt <;> trivial

theorem Prepared.at_point (h : Prepared E s) {pt : HandlePoint} {data : Bytes} {rest : List Int}
    (hpc : s.pc = .handle pt data rest) :
    Stage E s data pt ∧ (pt.cloned = false → s.connection ∉ rest) := h pt data rest hpc

/-- Only the point at which the manager stands is to be looked at. -/
theorem Prepared.of_stage {pt : HandlePoint} {data : Bytes} {rest : List Int}
    (hpc : s.pc = .handle pt data rest) (h : Stage E s data pt) (hrest : s.connection ∉ rest) :
    Prepared E s := by
  intro pt' data' rest' hpc'
  obtain ⟨rfl, rfl, rfl⟩ := Pc.handle.inj (hpc.symm.trans hpc')
  exact ⟨h, fun _ => hrest⟩

/-- What is read is the one event of the batch on the connection, and `pipe` gives
descriptors. -/
theorem Prepared.step (h : Prepared E s) (hstep : Step E s l s')
    (hrecv : ∀ data rest, s.pc = .recv data rest → s.connection ∉ rest)
    (hpipe : ∀ found r w, l = .load found (some (r, w)) → r ≠ -1 ∧ w ≠ -1) : Prepared E s' := by
  cases hstep with
  | sigterm =>
    intro pt data rest hpc
    obtain ⟨hstage, hrest⟩ := h.at_point hpc
    refine ⟨?_, hrest⟩
    cases pt <;> exact hstage
  | @received data rest m hpc hdata hm =>
    unfold received
    cases hmethod : m.method with
    | exe =>
      cases hload : E.loadRequest m.getRequest with
      | none => exact .of_not_preparing rfl
      | some r => exact .of_stage rfl ⟨hdata, m, hm, hmethod, hload⟩ (hrecv data rest hpc)
    | _ => exact .of_not_preparing rfl
  | @handleAccept data rest hpc hc =>
    obtain ⟨hstage, hrest⟩ := h.at_point hpc
    exact .of_stage rfl ⟨hstage, fun hback => if_pos hback⟩ (hrest rfl)
  | @findFound data rest fs r hpc hf =>
    obtain ⟨⟨hasks, hback⟩, hrest⟩ : (Asks E data s.request ∧ _) ∧ _ := h.at_point hpc
    -- `find_command` changes nothing but the first argument
    refine .of_stage rfl ⟨⟨s.request, fs, hasks, hf⟩, fun hr => hback ?_⟩ (hrest rfl)
    have hsame : (findCommand fs s.request).2.backend = s.request.backend := findCommand_backend
    rw [hf] at hsame
    rw [← hsame]
    exact hr
  | @loadOut data rest found pipe o hpc ho =>
    obtain ⟨⟨hfinds, hback⟩, hrest⟩ : (Finds E data s.request ∧ _) ∧ _ := h.at_point hpc
    refine .of_stage rfl ⟨hfinds, hback, ?_, ?_⟩ (hrest rfl)
    · exact (congrArg (·.1.mode) ho).symm.trans (Output.load_mode ..)
    · exact Output.load_piped ho fun r w hp => hpipe found r w (by rw [hp])
  | @loadErr data rest found pipe o hpc ho =>
    obtain ⟨⟨hfinds, hback, hout⟩, hrest⟩ : (Finds E data s.request ∧ _) ∧ _ := h.at_point hpc
    refine .of_stage rfl ⟨hfinds, hback, hout, ?_, ?_⟩ (hrest rfl)
    · exact (congrArg (·.1.mode) ho).symm.trans (Output.load_mode ..)
    · exact Output.load_piped ho fun r w hp => hpipe found r w (by rw [hp])
  -- the other steps lead away from the clone
  | loopCheck =>
    exact .of_not_preparing (loopCheck_pc rfl (fun _ _ _ => rfl) fun _ => rfl)
  | dispatch =>
    exact .of_not_preparing
      (dispatch_pc rfl (fun _ => rfl) (fun _ _ => rfl) (fun _ _ => rfl) fun _ => rfl)
  | waitOther hpc => exact .of_not_preparing (by rw [hpc]; rfl)
  | reap => exact .of_not_preparing (reaped_pc rfl rfl rfl)
  | argsSurvive => exact .of_not_preparing (clearEntry_pc rfl rfl)
  | @waitNone k | @stopKill k | @stopIdle k | @sent _ k =>
    exact .of_not_preparing (by cases k <;> rfl)
  | _ => exact .of_not_preparing rfl

end Manager

namespace Proc

/-- A heartbeat can be written. -/
def Sends (E : Env) : Prop := ∃ bs, E.serialize Manager.synMessage = some bs ∧ bs ≠ []

variable {E : Env} {p p' : Proc} {ev : Event} {fd : ℕ}

theorem Step.beaten (hcore : Core p) (hstep : Proc.Step E p ev p')
    (h : p.mgr.isSyn = true → p.mgr.pc.ending = false →
      p.mgr.pc = .send Manager.synMessage .heartbeat ∨ Sends E)
    (hsyn : p'.mgr.isSyn = true) (hend' : p'.mgr.pc.ending = false) :
    p'.mgr.pc = .send Manager.synMessage .heartbeat ∨ Sends E := by
  have hend : p.mgr.pc.ending = false :=
    Bool.eq_false_iff.mpr fun he => by simp [hstep.ending hcore he] at hend'
  -- a step from another point than the heartbeat's
  have hkeep : p.mgr.isSyn = true → p.mgr.pc ≠ .send Manager.synMessage .heartbeat → Sends E :=
    fun hs hne => (h hs hend).resolve_left hne
  cases hstep with
  | exit => exact h hsyn hend
  | mgr hadm hm =>
    cases hm with
    | sigterm => exact h hsyn hend
    -- the flag is set before the heartbeat has been written
    | heartbeat => exact Or.inl rfl
    | throws | unlockThrow => cases hend'
    | sigpipe => cases hend'
    -- a heartbeat that has been written can be written again
    | sent hpc hdata hne =>
      rcases h hsyn hend with hbeat | hsends
      · obtain ⟨rfl, -⟩ := Pc.send.inj (hpc.symm.trans hbeat)
        exact Or.inr ⟨_, hdata, hne⟩
      · exact Or.inr hsends
    | @received data rest m hpc hdata hm =>
      refine Or.inr (hkeep ?_ (by rw [hpc]; simp))
      have hsyn : (Manager.received E p.mgr data m rest).isSyn = true := hsyn
      unfold Manager.received at hsyn
      split at hsyn
      -- the ACK takes the flag back; the other messages leave it as it is
      case h_2 => cases hsyn
      case h_3 => split at hsyn <;> exact hsyn
      all_goals exact hsyn
    | reap hpc =>
      refine Or.inr (hkeep ?_ (by rw [hpc]; simp))
      rw [← hsyn]
      exact (Manager.reaped_field Manager.isSyn fun _ _ _ _ => rfl).symm
    | argsSurvive hpc =>
      refine Or.inr (hkeep ?_ (by rw [hpc]; simp))
      rw [← hsyn]
      exact (Manager.clearEntry_field Manager.isSyn fun _ _ => rfl).symm
    | _ => exact Or.inr (hkeep hsyn (by rw [‹p.mgr.pc = _›]; simp))

theorem Step.connection (hstep : Proc.Step E p ev p') :
    p'.mgr.connection = p.mgr.connection ∨ p'.mgr.connection = -1 := by
  cases hstep with
  | exit => exact Or.inl rfl
  | mgr hadm hm =>
    cases hm with
    | received => exact Or.inl (Manager.received_field Manager.connection fun _ _ _ => rfl)
    | reap => exact Or.inl (Manager.reaped_field Manager.connection fun _ _ _ _ => rfl)
    | argsSurvive => exact Or.inl (Manager.clearEntry_field Manager.connection fun _ _ => rfl)
    | disconnectStop | disconnect | destroyClose => exact Or.inr rfl
    | _ => exact Or.inl rfl

/-- The epoll set of a manager that is past its first step is there. -/
theorem Step.epollfd (hcore : Core p) (hstep : Proc.Step E p ev p')
    (h : p.mgr.pc.ending = false → p.mgr.pc ≠ .epollCreate → p.mgr.epollfd ≠ -1)
    (hend' : p'.mgr.pc.ending = false) (hpc' : p'.mgr.pc ≠ .epollCreate) :
    p'.mgr.epollfd ≠ -1 := by
  have hend : p.mgr.pc.ending = false :=
    Bool.eq_false_iff.mpr fun he => by simp [hstep.ending hcore he] at hend'
  cases hstep with
  | exit => exact h hend hpc'
  | mgr hadm hm =>
    cases hm with
    | sigterm => exact h hend hpc'
    | throws | unlockThrow | epollCreateFail => cases hend'
    | epollCreate hpc hfd => exact hfd
    | received hpc =>
      rw [Manager.received_field Manager.epollfd fun _ _ _ => rfl]
      exact h hend (by rw [hpc]; simp)
    | reap hpc =>
      rw [Manager.reaped_field Manager.epollfd fun _ _ _ _ => rfl]
      exact h hend (by rw [hpc]; simp)
    | argsSurvive hpc =>
      rw [Manager.clearEntry_field Manager.epollfd fun _ _ => rfl]
      exact h hend (by rw [hpc]; simp)
    | destroyClose => cases hend'
    | _ => exact h hend (by rw [‹p.mgr.pc = _›]; simp)

/-- What is known of a manager on the connection `fd`, whatever it has done so far. -/
structure Placed (E : Env) (fd : ℕ) (p : Proc) : Prop where
  core : Core p
  prepared : Manager.Prepared E p.mgr
  connection : p.mgr.connection = fd ∨ p.mgr.connection = -1
  epollfd : p.mgr.pc.ending = false → p.mgr.pc ≠ .epollCreate → p.mgr.epollfd ≠ -1
  beaten : p.mgr.isSyn = true → p.mgr.pc.ending = false →
    p.mgr.pc = .send Manager.synMessage .heartbeat ∨ Sends E

theorem Placed.start (fd : ℕ) : Placed E fd (start fd) where
  core := .start fd
  prepared := .of_not_preparing rfl
  connection := Or.inl rfl
  epollfd _ h := absurd rfl h
  beaten h := by cases h

theorem Placed.step (h : Placed E fd p) (hstep : Proc.Step E p ev p')
    (hrecv : ∀ data rest, p.mgr.pc = .recv data rest → p.mgr.connection ∉ rest)
    (hpipe : ∀ found r w, ev = .mgr (.load found (some (r, w))) → r ≠ -1 ∧ w ≠ -1) :
    Placed E fd p' where
  core := h.core.step hstep
  prepared := by
    cases hstep with
    | exit => exact h.prepared
    | mgr hadm hm =>
      exact h.prepared.step hm hrecv fun found r w hl => hpipe found r w (congrArg Event.mgr hl)
  connection := by
    rcases hstep.connection with hc | hc
    · rw [hc]
      exact h.connection
    · exact Or.inr hc
  epollfd := hstep.epollfd h.core h.epollfd
  beaten := hstep.beaten h.core h.beaten

/-! ### A manager that has just been forked

The steps of a manager that gets to the clone of its first command, from one change of its
descriptors to the next. -/

/-- A freshly forked manager in `epoll_wait`; `beat` says that it has written a heartbeat. -/
def waiting (fd : ℕ) (epollfd : Int) (beat : Bool) : Manager where
  connection := fd
  epollfd := epollfd
  isSyn := beat
  pc := .epollWait

/-- From `wait_child` to `epoll_wait` when there is nothing to do. -/
def idleLabels : List Label := [.waitpid none, .tau, .tau]

theorem exec_idle (fd : ℕ) (e : Int) (beat : Bool) (hi : History) :
    Machine.exec (step E)
        { mgr := { waiting fd e beat with pc := .waitChild .loop }, hist := hi }
        (idleLabels.map .mgr) = some { mgr := waiting fd e beat, hist := hi } :=
  rfl

theorem step_create (fd : ℕ) {e : Int} (he : e ≠ -1) :
    step E (Proc.start fd) (.mgr (.epollCreate1 e)) =
      some { mgr := { waiting fd e false with pc := .epollAdd } } := by
  simp [step, admits, Manager.step, Manager.codeStep, Manager.managerStart, Proc.start, waiting,
    Manager.goto, childrenAfter, histAfter, he]

theorem step_add (fd : ℕ) (e : Int) :
    step E { mgr := { waiting fd e false with pc := .epollAdd } } (.mgr (.epollAdd fd true)) =
      some { mgr := { waiting fd e false with pc := .waitChild .loop } } := by
  simp [step, admits, Manager.step, Manager.codeStep, Manager.managerStart, waiting,
    childrenAfter, histAfter]

/-- `epoll_wait` times out. -/
theorem step_timeout (fd : ℕ) (e : Int) :
    step E { mgr := waiting fd e false } (.mgr (.epollWait .timeout)) =
      some { mgr := (waiting fd e true).goto (.send Manager.synMessage .heartbeat) } := rfl

/-- It writes the heartbeat `bs` and gets back to `epoll_wait`. -/
def beatLabels (bs : Bytes) : List Label := .write bs (.wrote bs.length) :: .tau :: idleLabels

theorem exec_beat (fd : ℕ) (e : Int) {bs : Bytes}
    (hbs : E.serialize Manager.synMessage = some bs) (hne : bs ≠ []) :
    Machine.exec (step E)
        { mgr := (waiting fd e true).goto (.send Manager.synMessage .heartbeat) }
        ((beatLabels bs).map .mgr) =
      some { mgr := waiting fd e true, hist.sent := [Manager.synMessage] } := by
  have hwrite : step E { mgr := (waiting fd e true).goto (.send Manager.synMessage .heartbeat) }
      (.mgr (.write bs (.wrote bs.length))) =
        some { mgr := (waiting fd e true).goto (.dispatch [])
               hist.sent := [Manager.synMessage] } := by
    have hresult : Manager.synMessage.isResult = false := rfl
    simp [step, admits, Manager.step, Manager.codeStep, Manager.sendMessage, waiting,
      childrenAfter, histAfter, histSent, SendRet.pc, hbs, hne, hresult]
  -- no event is left to dispatch
  have hdispatch : step E
      { mgr := (waiting fd e true).goto (.dispatch []), hist.sent := [Manager.synMessage] }
      (.mgr .tau) =
        some { mgr := { waiting fd e true with pc := .waitChild .loop }
               hist.sent := [Manager.synMessage] } := rfl
  exact Machine.exec_cons_eq_some.mpr ⟨_, hwrite,
    Machine.exec_cons_eq_some.mpr ⟨_, hdispatch, exec_idle fd e true _⟩⟩

/-- The connection is ready. -/
theorem step_ready (fd : ℕ) (e : Int) (beat : Bool) (hi : History) :
    step E { mgr := waiting fd e beat, hist := hi } (.mgr (.epollWait (.ready [(fd : Int)]))) =
      some { mgr := (waiting fd e beat).goto (.dispatch [(fd : Int)]), hist := hi } := rfl

/-- The bytes are read one by one. -/
def byBytes (data : Bytes) : Burst := data.map fun b => ⟨[b], by simp, by simp⟩

theorem data_byBytes (data : Bytes) : (byBytes data).data = data := by
  induction data with
  | nil => rfl
  | cons b data ih =>
    show [b] ++ (byBytes data).data = b :: data
    rw [ih]
    rfl

/-- The loop of `recv_message` collects the bytes. -/
def collectLabels (data : Bytes) : List Label :=
  .tau :: (byBytes data).map fun c => .read (some c)

theorem exec_collect (fd : ℕ) (e : Int) (beat : Bool) (hi : History) (data : Bytes) :
    Machine.exec (step E)
        { mgr := (waiting fd e beat).goto (.dispatch [(fd : Int)]), hist := hi }
        ((collectLabels data).map .mgr) =
      some { mgr := (waiting fd e beat).goto (.recv data []), hist := hi } := by
  have hdispatch : step E
      { mgr := (waiting fd e beat).goto (.dispatch [(fd : Int)]), hist := hi } (.mgr .tau) =
        some { mgr := (waiting fd e beat).goto (.recv [] []), hist := hi } := by
    simp [step, admits, Manager.step, Manager.codeStep, Manager.managerStart, Manager.dispatch,
      waiting, childrenAfter, histAfter]
  have hread := exec_readChunks (E := E) (b := byBytes data)
    (p := { mgr := (waiting fd e beat).goto (.recv [] []), hist := hi }) rfl
  rw [data_byBytes, List.nil_append] at hread
  rw [collectLabels, List.map_cons, List.map_map, Machine.exec_cons, hdispatch, Option.bind_some]
  exact hread

/-- The bytes are an EXE. -/
theorem step_received (fd : ℕ) (e : Int) (beat : Bool) (hi : History) {data : Bytes}
    {m : Message} {r : Request} (hdata : data ≠ []) (hm : E.parse data = some m)
    (hexe : m.method = .exe) (hload : E.loadRequest m.getRequest = some r) :
    step E { mgr := (waiting fd e beat).goto (.recv data []), hist := hi } (.mgr (.read none)) =
      some { mgr := { waiting fd e beat with request := r, pc := .handle .entry data [] }
             hist := { hi with received := hi.received ++ [m] } } := by
  simp [step, admits, Manager.step, Manager.codeStep, Manager.recvMessage, Manager.received,
    waiting, childrenAfter, histAfter, hdata, hm, hexe, hload]

/-- It has found the command of `s`. -/
def loading (fd : ℕ) (s : Manager) (data : Bytes) : Manager :=
  { waiting fd s.epollfd s.isSyn with
    request := s.request
    synTimeout := if s.request.backend then -1 else 1000
    processStop := s.processStop
    pc := .handle .loadOut data [] }

/-- It finds it, with what the system has given to `s`. -/
def findLabels (s : Manager) (fs : FileSystem) : List Label :=
  [.sigterm s.processStop, .tau, .lookup (some fs)]

theorem exec_find (fd : ℕ) {s : Manager} (hi : History) (data : Bytes) {r : Request}
    {fs : FileSystem} (hfind : findCommand fs r = (true, s.request)) :
    Machine.exec (step E)
        { mgr := { waiting fd s.epollfd s.isSyn with request := r, pc := .handle .entry data [] }
          hist := hi }
        ((findLabels s fs).map .mgr) = some { mgr := loading fd s data, hist := hi } := by
  have hback : r.backend = s.request.backend := by
    have hsame : (findCommand fs r).2.backend = r.backend := findCommand_backend
    rw [hfind] at hsame
    exact hsame.symm
  simp [findLabels, Machine.exec_cons, step, admits, Manager.step, Manager.codeStep,
    Manager.handleRequest, waiting, loading, childrenAfter, histAfter, hfind, hback]

/-- It has loaded the first stream. -/
def loaded (fd : ℕ) (s : Manager) (data : Bytes) : Manager :=
  { loading fd s data with
    out := s.out.fresh s.request.outmode s.request.outfile s.request.backend
    pc := .handle .loadErr data [] }

theorem step_loadOut (fd : ℕ) (s : Manager) (hi : History) (data : Bytes) :
    step E { mgr := loading fd s data, hist := hi }
        (.mgr (.load true (s.out.pipe s.request.outmode s.request.backend))) =
      some { mgr := loaded fd s data, hist := hi } := by
  simp [step, admits, Manager.step, Manager.codeStep, Manager.handleRequest, waiting, loading,
    loaded, childrenAfter, histAfter, Output.load_fresh]

/-- It has loaded both. -/
def cloning (fd : ℕ) (s : Manager) (data : Bytes) : Manager :=
  { loaded fd s data with
    err := s.err.fresh s.request.errmode s.request.errfile s.request.backend
    pc := .handle .clone data [] }

theorem step_loadErr (fd : ℕ) (s : Manager) (hi : History) (data : Bytes) :
    step E { mgr := loaded fd s data, hist := hi }
        (.mgr (.load true (s.err.pipe s.request.errmode s.request.backend))) =
      some { mgr := cloning fd s data, hist := hi } := by
  simp [step, admits, Manager.step, Manager.codeStep, Manager.handleRequest, waiting, loading,
    loaded, cloning, childrenAfter, histAfter, Output.load_fresh]

/-- What it is after the clone. -/
theorem step_clone (fd : ℕ) {s : Manager} (hi : History) {data : Bytes} {pid : Int}
    (hpid : 0 < pid) (hfd : s.connection = fd) (hclone : s.clonepid = pid)
    (hpc : s.pc = .handle .leaf data []) :
    step E { mgr := cloning fd s data, hist := hi } (.mgr (.clone pid)) =
      some { mgr := s.fresh, children := [(pid, .alive)]
             hist := { hi with
               clones := hi.clones + 1, command := some ⟨pid, data, false⟩ } } := by
  have hne : pid ≠ -1 := by omega
  simp [step, admits, Manager.step, Manager.codeStep, Manager.handleRequest, waiting, loading,
    loaded, cloning, Manager.fresh, childrenAfter, histAfter, hne, hpid, pids, hfd, hclone, hpc]

/-! ### What is seen of a process -/

/-- What is seen of a process; its history is not read. -/
def view (p : Proc) : Proc := { mgr := p.mgr.view, children := p.children }

theorem view_respected : Machine.Respected (step E) view := by
  intro p ev
  cases ev with
  | mgr l =>
    show (if p.admits l then _ else _ : Option Proc).map view =
      (if p.admits l then _ else _ : Option Proc).map view
    split
    · have hstep := congrArg
        (Option.map fun m => ({ mgr := m, children := p.childrenAfter l } : Proc))
        (Manager.step_view (E := E) (s := p.mgr) (l := l))
      simp only [Option.map_map] at hstep ⊢
      exact hstep
    · rfl
  | exit pid st =>
    show (if (pid, Life.alive) ∈ p.children ∧ st ≠ .other then _ else _ : Option Proc).map view =
      (if (pid, Life.alive) ∈ p.children ∧ st ≠ .other then _ else _ : Option Proc).map view
    split
    · exact congrArg some (by simp [view, Manager.view_view])
    · rfl

/-- Where nothing is left that is going to be read, a manager that has just cloned is seen as
a fresh one. -/
theorem Placed.view_eq (h : Placed E fd p) {pid : Int} (hpid : pid ≠ -1)
    (hunused : p.mgr.unused = true) (hstep : p.step E (.mgr (.clone pid)) = some p') :
    p'.mgr.view = p'.mgr.fresh.view := by
  cases step_cases hstep with
  | mgr hadm hm =>
    cases hm with
    | throws hl => cases (Pc.throwing_of_throws hl).2
    | cloneFail => exact absurd rfl hpid
    | clone hpc =>
      obtain ⟨⟨-, hback, ⟨hout, -⟩, herr, -⟩, -⟩ : (Manager.Finds E _ _ ∧ _) ∧ _ :=
        h.prepared.at_point hpc
      exact Manager.view_fresh rfl rfl hunused hback hout herr

/-- The event clones a command. -/
def clones : Event → Bool
  | .mgr (.clone pid) => pid ≠ -1
  | _ => false

/-- An EXE in `epoll_wait`, up to the clone. -/
def againLabels (data : Chunk) : List Label :=
  receiveLabels data ++
    [.tau, .lookup (some fun _ => .file), .load true none, .load true none, .clone 101]

/-- A foreground `/bin/ls` whose result has been sent, and a second one that is found. -/
def foregroundTwice : List Event :=
  lsLabels.map .mgr ++ lsEndEvents (.exited 0) ++
    ([Label.tau, .write [0x12, 0] (.wrote 2), .tau] ++ (againLabels lsData).dropLast).map .mgr

/-- The second command is registered. The timer of the first one is still there. -/
def registerLabels : List Label :=
  [.createLeaf 101 true, .writeCgroup 101 .memlimit "100M" .complete,
    .memswExists 101 (some false), .writeCgroup 101 .procs "101" .complete,
    .writeCgroup 101 .notify "1" .complete, .flock .ex, .regCreate 101 true,
    .regWrite 101 lsData.bytes .complete, .flock .un, .bind (-1) true, .bind (-1) true,
    .timerfdCreate 8, .timerfdSettime 600 true, .epollAdd 8 true, .tau] ++ loopLabels

/-- It ends and is reaped, and the manager goes on past `exec_over`. -/
def foregroundEnd : List Event :=
  registerLabels.map .mgr ++ [.exit 101 (.exited 0)] ++
    (reapLabels 101 (.exited 0) ++ [Label.tau, .tau]).map .mgr

end Proc
end Srun
