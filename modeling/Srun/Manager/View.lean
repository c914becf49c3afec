import Srun.Manager.Step

/-!
# What a manager is still going to read

Much of what is in the variables of a manager is never read again. While the command runs,
the state of the response is going to be overwritten; once a result has been sent, the whole
response is dead, and while `handle_request` starts a command, so is a timer that it is
going to replace. `Manager.view` blots out what is dead at the point at which the manager
stands.

A variable may be dead at one point and read at a later one only if it is written in
between. `Pc.Fades` says that nothing comes back to life on the way from one point to
another; then it does not matter whether the state has been blotted out before
(`view_goto`).
-/

namespace Srun

/-! ### Where a variable is dead -/

/-- After the clone. -/
def HandlePoint.cloned : HandlePoint → Bool
  | .entry | .find | .loadOut | .loadErr | .clone => false
  | _ => true

/-- After the clone, and the output (the error output when `isErr`) is not bound yet. -/
def HandlePoint.unbound (isErr : Bool) : HandlePoint → Bool
  | .bindErr => isErr
  | .timer | .settime | .timerAdd | .reply => false
  | pt => pt.cloned

/-- After the clone, and the timer is not there yet. -/
def HandlePoint.untimed : HandlePoint → Bool
  | .settime | .timerAdd | .reply => false
  | pt => pt.cloned

theorem HandlePoint.cloned_of_unbound (b : Bool) (pt : HandlePoint) (h : pt.unbound b = true) :
    pt.cloned = true := by
  cases pt <;> first | rfl | exact h

theorem HandlePoint.cloned_of_untimed (pt : HandlePoint) (h : pt.untimed = true) :
    pt.cloned = true := by
  cases pt <;> first | rfl | exact h

/-- `wait_child` has been called by `manager_destroy`. -/
def WaitRet.leaves : WaitRet → Bool
  | .loop => false
  | .destroy _ => true

namespace Pc

/-- The manager does not go back to its loop. -/
def leaving : Pc → Bool
  | .destroy _ _ | .gone _ | .waitChild (.destroy _) | .argsRead (.destroy _)
  | .clear _ _ (.destroy _) => true
  | _ => false

/-- What dies at the points `f` of `handle_request` is dead. -/
def dead (f : HandlePoint → Bool) : Pc → Bool
  | .handle pt _ _ => f pt
  | pc => pc.leaving

/-- `result_sendback` is not read before it is set, if it is read at all. -/
def answers (backend : Bool) : Pc → Bool
  -- the answer to a backend command is going to set it
  | .handle pt _ _ => backend && pt.cloned
  | .send m _ => m.isResult
  | pc => pc.leaving

/-- Nothing is dead because of the point alone. -/
def live : Pc → Bool
  | .handle pt _ _ => !pt.cloned
  | .send m _ => !m.isResult
  | pc => !pc.leaving

/-- What is dead at `pc` is dead at `pc'`. -/
structure Fades (backend : Bool) (pc pc' : Pc) : Prop where
  answers : pc.answers backend = true → pc'.answers backend = true
  untimed : pc.dead HandlePoint.untimed = true → pc'.dead HandlePoint.untimed = true
  unbound : ∀ b, pc.dead (HandlePoint.unbound b) = true →
    pc'.dead (HandlePoint.unbound b) = true

variable {pc pc' : Pc} {backend : Bool}

theorem answers_of_live (h : pc.live = true) (b : Bool) : pc.answers b = false := by
  cases pc with
  | handle pt =>
    have hpt : pt.cloned = false := by simpa [live] using h
    simp [answers, hpt]
  | send m =>
    have hm : m.isResult = false := by simpa [live] using h
    exact hm
  | _ => exact (Bool.not_eq_true' _).mp h

theorem dead_of_live {f : HandlePoint → Bool} (hf : ∀ pt, f pt = true → pt.cloned = true)
    (h : pc.live = true) : pc.dead f = false := by
  cases pc with
  | handle pt =>
    have hpt : pt.cloned = false := by simpa [live] using h
    by_contra hdead
    have hcloned : pt.cloned = true := hf pt (by simpa [dead] using hdead)
    rw [hpt] at hcloned
    cases hcloned
  | send => rfl
  | _ => exact (Bool.not_eq_true' _).mp h

theorem Fades.refl (pc : Pc) : Fades backend pc pc := ⟨id, id, fun _ => id⟩

theorem Fades.of_live (h : pc.live = true) : Fades backend pc pc' where
  answers hb := by rw [answers_of_live h] at hb; cases hb
  untimed hd := by rw [dead_of_live HandlePoint.cloned_of_untimed h] at hd; cases hd
  unbound b hd := by rw [dead_of_live (HandlePoint.cloned_of_unbound b) h] at hd; cases hd

/-- On the way out everything is dead. -/
theorem Fades.of_leaving (h : pc'.leaving = true) : Fades backend pc pc' := by
  have hdead : ∀ f, pc'.dead f = true := by
    intro f
    cases pc' <;> first | exact h | cases h
  refine ⟨fun _ => ?_, fun _ => hdead _, fun b _ => hdead _⟩
  cases pc' <;> first | exact h | cases h

/-- From `wait_child` and what it calls, back to it or to its caller. -/
theorem Fades.of_ret {k : WaitRet} (hpc : pc = .waitChild k ∨ pc = .argsRead k ∨
    ∃ pt pid, pc = .clear pt pid k) (hpc' : k.leaves = pc'.leaving) :
    Fades backend pc pc' := by
  cases k with
  | loop =>
    refine .of_live ?_
    rcases hpc with rfl | rfl | ⟨pt, pid, rfl⟩
    · rfl
    · rfl
    · rfl
  | destroy how => exact .of_leaving hpc'.symm

end Pc

/-! ### The view -/

/-- What is seen of a captured output. The write end, the path and the redirect file are not
read by the manager after `load` and `bind`; `over` is dead where the stream is not bound
yet, if binding is going to set it. -/
def Output.view (o : Output) (dead : Bool) : Output :=
  { o with
    pipefd1 := -1, redirectTo := "", redirectFd := -1
    «over» := if dead && o.pipefd0 = -1 then true else o.over }

theorem Output.view_view {o : Output} {d d' : Bool} (h : d = true → d' = true) :
    (o.view d).view d' = o.view d' := by
  -- what was blotted out is blotted out again
  cases d with
  | false => rfl
  | true =>
    rw [h rfl]
    by_cases hp : o.pipefd0 = -1 <;> simp [Output.view, hp]

/-- The more is dead, the less is seen. -/
theorem Output.view_of_view {o o' : Output} (h : o.view false = o'.view false) (b : Bool) :
    o.view b = o'.view b := by
  have hless : ∀ o : Output, (o.view false).view b = o.view b := fun o =>
    Output.view_view fun hf => by cases hf
  calc
    o.view b = (o.view false).view b := (hless o).symm
    _ = (o'.view false).view b := by rw [h]
    _ = o'.view b := hless o'

/-- What is seen of the response: nothing when it has been answered, and all but its state
while the command runs. -/
def Response.view (r : Response) (answered running : Bool) : Response :=
  if answered then {} else if running then { r with stat := .normal } else r

theorem Response.view_view {r : Response} {a a' b : Bool} (h : a = true → a' = true) :
    (r.view a b).view a' b = r.view a' b := by
  cases a' with
  | true => rfl
  | false =>
    have ha : a = false := by simpa using h
    cases b <;> simp [Response.view, ha]

/-- What writes the state of the response does not see which one it has been. -/
theorem Response.view_map {r r' : Response} {a b b' : Bool} {f : Response → Response}
    (hf : ∀ r x, (f { r with stat := x }).view false b' = (f r).view false b')
    (h : r.view a b = r'.view a b) : (f r).view a b' = (f r').view a b' := by
  cases a with
  | true => rfl
  | false =>
    -- the views agree on all but the state, and `f` does not look at it
    have hsame : ({ r with stat := .normal } : Response) = { r' with stat := .normal } := by
      cases b with
      | true => exact h
      | false => exact congrArg (fun r : Response => { r with stat := .normal }) h
    rw [← hf r .normal, hsame, hf]

attribute [ext] Manager

namespace Manager

/-- A result has been sent, or whether one has is not going to be read before it is. -/
def answered (s : Manager) : Bool := s.resultSendback || s.pc.answers s.request.backend

/-- The timer is going to be replaced. -/
def untimed (s : Manager) : Bool :=
  s.pc.dead HandlePoint.untimed && decide (0 ≤ s.request.timeout)

/-- **What is seen of a manager.** -/
def view (s : Manager) : Manager :=
  { s with
    epollfd := -1
    timerfd := if s.untimed then -1 else s.timerfd
    out := s.out.view (s.pc.dead (HandlePoint.unbound false))
    err := s.err.view (s.pc.dead (HandlePoint.unbound true))
    resultSendback := s.answered
    response := s.response.view s.answered (s.childStatus = .procRunning) }

variable {E : Env} {s t : Manager} {l : Label} {pc : Pc}

@[simp] theorem view_pc : s.view.pc = s.pc := rfl
@[simp] theorem view_connection : s.view.connection = s.connection := rfl
@[simp] theorem view_clonepid : s.view.clonepid = s.clonepid := rfl
@[simp] theorem view_childStatus : s.view.childStatus = s.childStatus := rfl
@[simp] theorem view_request : s.view.request = s.request := rfl
@[simp] theorem view_isSyn : s.view.isSyn = s.isSyn := rfl
@[simp] theorem view_processStop : s.view.processStop = s.processStop := rfl
@[simp] theorem view_synTimeout : s.view.synTimeout = s.synTimeout := rfl

/-- The states are equal but for what is dead. -/
structure Same (s t : Manager) : Prop where
  connection : s.connection = t.connection
  clonepid : s.clonepid = t.clonepid
  timerfd : s.view.timerfd = t.view.timerfd
  out : s.view.out = t.view.out
  err : s.view.err = t.view.err
  synTimeout : s.synTimeout = t.synTimeout
  isSyn : s.isSyn = t.isSyn
  answered : s.answered = t.answered
  childStatus : s.childStatus = t.childStatus
  response : s.view.response = t.view.response
  request : s.request = t.request
  processStop : s.processStop = t.processStop
  pc : s.pc = t.pc

theorem Same.view (h : Same s t) : s.view = t.view :=
  Manager.ext h.connection h.clonepid rfl h.timerfd h.out h.err h.synTimeout h.isSyn h.answered
    h.childStatus h.response h.request h.processStop h.pc

theorem same_of_view (h : s.view = t.view) : Same s t := by
  have hfield : ∀ {α : Type} (f : Manager → α), f s.view = f t.view := fun f => congrArg f h
  exact ⟨hfield (·.connection), hfield (·.clonepid), hfield (·.timerfd), hfield (·.out),
    hfield (·.err), hfield (·.synTimeout), hfield (·.isSyn), hfield (·.resultSendback),
    hfield (·.childStatus), hfield (·.response), hfield (·.request), hfield (·.processStop),
    hfield (·.pc)⟩

theorem Same.untimed (h : Same s t) : s.untimed = t.untimed := by
  unfold Manager.untimed
  rw [h.pc, h.request]

/-- A timer that has been dead already. -/
theorem ite_fade {d d' : Bool} {x : Int} (h : d = true → d' = true) :
    (if d' then -1 else if d then -1 else x) = if d' then -1 else x := by
  cases d' with
  | true => rfl
  | false =>
    have hd : d = false := by simpa using h
    rw [hd]
    rfl

theorem or_fade {r a a' : Bool} (h : a = true → a' = true) : ((r || a) || a') = (r || a') := by
  cases a with
  | false => rw [Bool.or_false]
  | true => rw [h rfl, Bool.or_true, Bool.or_true]

/-- **Going on.** Where nothing comes back to life, it does not matter whether what is dead
has been blotted out before. -/
theorem view_goto (h : Pc.Fades s.request.backend s.pc pc) :
    (s.view.goto pc).view = (s.goto pc).view := by
  -- each field that depends on the point: dead at the old one, it is dead at the new one
  have hanswered : (s.view.goto pc).answered = (s.goto pc).answered := or_fade h.answers
  have huntimed : s.untimed = true → (s.goto pc).untimed = true := by
    simp only [untimed, Bool.and_eq_true]
    exact And.imp_left h.untimed
  have hle : s.answered = true → (s.goto pc).answered = true := by
    simp only [answered, Bool.or_eq_true]
    exact Or.imp_right h.answers
  have hresponse : (s.view.goto pc).view.response = (s.goto pc).view.response := by
    show (s.view.goto pc).response.view (s.view.goto pc).answered _ = _
    rw [hanswered]
    exact Response.view_view hle
  exact Manager.ext rfl rfl rfl (ite_fade huntimed) (Output.view_view (h.unbound _))
    (Output.view_view (h.unbound _)) rfl rfl hanswered rfl hresponse rfl rfl rfl

theorem view_raise : s.view.raise.view = s.raise.view := view_goto (.of_leaving rfl)

theorem view_view : s.view.view = s.view := view_goto (.refl s.pc)

/-- Going on at another point, from states with the same view. -/
theorem goto_view (h : s.view = t.view) (hf : Pc.Fades s.request.backend s.pc pc) :
    (s.goto pc).view = (t.goto pc).view := by
  -- through the view of either state
  have hs := same_of_view h
  rw [hs.pc, hs.request] at hf
  rw [← view_goto (hs.pc ▸ hs.request ▸ hf), h, view_goto hf]

/-! ### Live points -/

theorem live_of_eq {P : Pc} (hpc : s.pc = P) (h : P.live = true) : s.pc.live = true := hpc ▸ h

theorem answered_of_live (h : s.pc.live = true) : s.answered = s.resultSendback := by
  rw [answered, Pc.answers_of_live h, Bool.or_false]

theorem untimed_of_live (h : s.pc.live = true) : s.untimed = false := by
  rw [untimed, Pc.dead_of_live HandlePoint.cloned_of_untimed h, Bool.false_and]

/-- What is seen of a state at a live point. -/
theorem view_of_live (h : s.pc.live = true) :
    s.view = { s with
      epollfd := -1
      out := s.out.view false
      err := s.err.view false
      response := s.response.view s.resultSendback (s.childStatus = .procRunning) } := by
  have hdead : ∀ b, s.pc.dead (HandlePoint.unbound b) = false := fun b =>
    Pc.dead_of_live (HandlePoint.cloned_of_unbound b) h
  unfold view
  rw [untimed_of_live h, hdead, hdead, answered_of_live h]
  rfl

theorem timerfd_of_live (h : s.pc.live = true) : s.view.timerfd = s.timerfd := by
  rw [view_of_live h]

theorem out_of_live (h : s.pc.live = true) : s.view.out = s.out.view false := by
  rw [view_of_live h]

theorem err_of_live (h : s.pc.live = true) : s.view.err = s.err.view false := by
  rw [view_of_live h]

theorem goto_live (h : s.pc.live = true) (pc : Pc) :
    (some (s.view.goto pc)).map view = (some (s.goto pc)).map view :=
  congrArg some (view_goto (.of_live h))

/-! ### Writing a variable -/

/-- The status of the child and the response are written. -/
theorem written_view (h : s.view = t.view) (c : ProcessStatus) {f : Response → Response}
    (hf : ∀ r x, (f { r with stat := x }).view false (c = .procRunning) =
      (f r).view false (c = .procRunning)) :
    ({ s with childStatus := c, response := f s.response } : Manager).view =
      ({ t with childStatus := c, response := f t.response } : Manager).view := by
  have hs := same_of_view h
  have hresponse : s.response.view s.answered (s.childStatus = .procRunning) =
      t.response.view s.answered (s.childStatus = .procRunning) := by
    have hr : s.response.view s.answered _ = t.response.view t.answered _ := hs.response
    rwa [← hs.answered, ← hs.childStatus] at hr
  have hwritten : (f s.response).view s.answered (c = .procRunning) =
      (f t.response).view t.answered (c = .procRunning) := by
    rw [← hs.answered]
    exact Response.view_map hf hresponse
  exact Same.view { hs with childStatus := rfl, response := hwritten }

/-- The timer is written. -/
theorem timerfd_view (h : s.view = t.view) (fd : Int) :
    ({ s with timerfd := fd } : Manager).view = ({ t with timerfd := fd } : Manager).view := by
  have hs := same_of_view h
  have htimer : (if s.untimed then -1 else fd) = if t.untimed then -1 else fd := by rw [hs.untimed]
  exact Same.view { hs with timerfd := htimer }

/-- At a live point the request is written. -/
theorem request_view (hlive : s.pc.live = true) (r : Request) :
    ({ s.view with request := r } : Manager).view = ({ s with request := r } : Manager).view := by
  have hback : s.view.resultSendback = s.resultSendback := answered_of_live hlive
  have hnew : ({ s with request := r } : Manager).pc.live = true := hlive
  have hnew' : ({ s.view with request := r } : Manager).pc.live = true := hlive
  rw [view_of_live hnew]
  refine (view_of_live hnew').trans ?_
  refine Manager.ext rfl rfl rfl (timerfd_of_live hlive) ?_ ?_ rfl rfl hback rfl ?_ rfl rfl rfl
  · show s.view.out.view false = s.out.view false
    rw [out_of_live hlive, Output.view_view id]
  · show s.view.err.view false = s.err.view false
    rw [err_of_live hlive, Output.view_view id]
  · show s.view.response.view s.view.resultSendback _ = s.response.view s.resultSendback _
    rw [view_of_live hlive]
    exact Response.view_view id

/-- The captured output is written, and what is seen of it is the same. -/
theorem out_view (h : s.view = t.view) {o o' : Output} (ho : ∀ b, o.view b = o'.view b) :
    ({ s with out := o } : Manager).view = ({ t with out := o' } : Manager).view := by
  have hs := same_of_view h
  have hout : o.view (s.pc.dead (HandlePoint.unbound false)) =
      o'.view (t.pc.dead (HandlePoint.unbound false)) := by
    rw [hs.pc]
    exact ho _
  exact Same.view { hs with out := hout }

theorem err_view (h : s.view = t.view) {o o' : Output} (ho : ∀ b, o.view b = o'.view b) :
    ({ s with err := o } : Manager).view = ({ t with err := o' } : Manager).view := by
  have hs := same_of_view h
  have herr : o.view (s.pc.dead (HandlePoint.unbound true)) =
      o'.view (t.pc.dead (HandlePoint.unbound true)) := by
    rw [hs.pc]
    exact ho _
  exact Same.view { hs with err := herr }

end Manager
end Srun
