import Srun.Manager.View

/-!
# Steps do not read what is dead

Function by function of `manager.cpp`: from the view of a state it does what it does from
the state itself, as far as one can see (`step_view`). The steps at which something comes
back to life (`bind`, the timer, the result that has been sent) are those that write it.
-/

namespace Srun
namespace Manager

variable {E : Env} {s t : Manager} {l : Label} {pc : Pc}

/-! ### The functions of `manager.cpp` and of `output.cpp` -/

/-- The same question is asked in both states. -/
theorem map_ite {c c' : Prop} [Decidable c] [Decidable c'] {a b a' b' : Option Manager}
    (hc : c ↔ c') (ha : a.map view = a'.map view) (hb : b.map view = b'.map view) :
    (if c then a else b).map view = (if c' then a' else b').map view := by
  by_cases h : c
  · rwa [if_pos h, if_pos (hc.mp h)]
  · rwa [if_neg h, if_neg fun h' => h (hc.mpr h')]

theorem ite_view {c c' : Prop} [Decidable c] [Decidable c'] {a b a' b' : Manager} (hc : c ↔ c')
    (ha : a.view = a'.view) (hb : b.view = b'.view) :
    (if c then a else b).view = (if c' then a' else b').view := by
  by_cases h : c
  · rwa [if_pos h, if_pos (hc.mp h)]
  · rwa [if_neg h, if_neg fun h' => h (hc.mpr h')]

theorem receive_view {o : Output} {reads : List (Chunk × Int)} :
    ((o.view false).receive reads).1.view false = (o.receive reads).1.view false := by
  -- the mode and the content are there in both
  have hif : ∀ (c : Prop) [Decidable c] (p q : Output) (w : Bytes), p.view false = q.view false →
      ((if c then ({ p with «over» := true, pipefd0 := -1, redirectFd := -1 }, w) else (p, w)) :
        Output × Bytes).1.view false =
      ((if c then ({ q with «over» := true, pipefd0 := -1, redirectFd := -1 }, w) else (q, w)) :
        Output × Bytes).1.view false := by
    intro c _ p q w h
    split
    · have hstr := congrArg (·.str) h
      have hmode := congrArg (·.mode) h
      simp_all [Output.view]
    · exact h
  exact hif _ _ _ _ rfl

theorem load_view (o : Output) (mode : OutMode) (path : String) (backend found : Bool)
    (pipe : Option (Int × Int)) :
    ((o.view false).load mode path backend found pipe).1.view false =
        (o.load mode path backend found pipe).1.view false ∧
      ((o.view false).load mode path backend found pipe).2 =
        (o.load mode path backend found pipe).2 := by
  cases mode <;> cases backend <;> cases found <;> cases pipe <;> exact ⟨rfl, rfl⟩

/-- A stream is bound: what was dead has been set, or is the same. -/
theorem bind_view (o : Output) (fd : Int) (added : Bool) :
    ((o.view true).bind fd added).1.view false = (o.bind fd added).1.view false ∧
      ((o.view true).bind fd added).2 = (o.bind fd added).2 := by
  by_cases hpipe : o.pipefd0 = -1
  · simp [Output.bind, Output.view, hpipe]
  · by_cases hmode : o.mode = .file <;> by_cases hfd : fd = -1 <;>
      simp [Output.bind, Output.view, hpipe, hmode, hfd]

theorem clearEntry_view {k : WaitRet} (h : s.view = t.view)
    (hf : Pc.Fades s.request.backend s.pc (.waitChild k)) :
    (s.clearEntry k).view = (t.clearEntry k).view := by
  have hzero :
      ({ s with clonepid := 0 } : Manager).view = ({ t with clonepid := 0 } : Manager).view :=
    congrArg (fun m : Manager => { m with clonepid := 0 }) h
  unfold clearEntry
  rw [(same_of_view h).clonepid]
  -- `clonepid` is reset in both states; then the same is dead as at the return
  refine ite_view Iff.rfl (goto_view hzero ?_) (goto_view h hf)
  cases k with
  | loop => exact ⟨hf.answers, hf.untimed, hf.unbound⟩
  | destroy => exact .of_leaving rfl

theorem stopChild_view {k : StopRet} (hpc : s.pc = .stopChild k) :
    (s.view.stopChild k l).map view = (s.stopChild k l).map view := by
  have hlive : s.pc.live = true := live_of_eq hpc rfl
  cases l with
  | tau => exact map_ite Iff.rfl rfl (goto_live hlive _)
  | kill pid => exact map_ite Iff.rfl (goto_live hlive _) rfl
  | _ => rfl

theorem clearClonepid_view {pt : ClearPoint} {pid : Int} {k : WaitRet}
    (hpc : s.pc = .clear pt pid k) :
    (s.view.clearClonepid pid k pt l).map view = (s.clearClonepid pid k pt l).map view := by
  have hgoto : ∀ {pc}, k.leaves = pc.leaving →
      (some (s.view.goto pc)).map view = (some (s.goto pc)).map view := by
    intro pc hk
    exact congrArg some (view_goto (.of_ret (Or.inr (Or.inr ⟨pt, pid, hpc⟩)) hk))
  -- each point of `clear_clonepid` goes on to the next one
  unfold clearClonepid
  split
  · exact hgoto (by cases k <;> rfl)
  · exact map_ite Iff.rfl (hgoto (by cases k <;> rfl)) rfl
  · exact hgoto (by cases k <;> rfl)
  · exact map_ite Iff.rfl (hgoto (by cases k <;> rfl)) rfl
  · rfl

theorem reaped_view {st : WaitStatus} {k : WaitRet} (hpc : s.pc = .waitChild k) :
    (s.view.reaped st k).view = (s.reaped st k).view := by
  have hf : Pc.Fades s.request.backend s.pc (.waitChild k) := hpc ▸ .refl _
  have habnormal := written_view (f := fun r => { r with stat := .abnormal }) (view_view (s := s))
    .procExit fun _ _ => rfl
  -- what `wait_child` writes to the response it does not read
  cases st with
  | exited code =>
    have hnormal := written_view
      (f := fun r => { r with stat := .normal, retval := Int32.ofInt code.toNat })
      (view_view (s := s)) .procExit fun _ _ => rfl
    exact clearEntry_view hnormal hf
  | signaled sig =>
    refine ite_view Iff.rfl (goto_view habnormal ?_) (clearEntry_view habnormal hf)
    exact .of_ret (Or.inl hpc) (by cases k <;> rfl)
  | other => exact clearEntry_view habnormal hf

theorem argsRead_view {k : WaitRet} (hpc : s.pc = .argsRead k) :
    (s.view.argsRead k l).map view = (s.argsRead k l).map view := by
  have hfades : Pc.Fades s.request.backend s.pc (.waitChild k) :=
    .of_ret (Or.inr (Or.inl hpc)) (by cases k <;> rfl)
  cases l with
  | argsRead dies =>
    exact congrArg some
      (ite_view Iff.rfl (view_goto (.of_leaving rfl)) (clearEntry_view view_view hfades))
  | _ => rfl

theorem waitChild_view {k : WaitRet} (hpc : s.pc = .waitChild k) :
    (s.view.waitChild k l).map view = (s.waitChild k l).map view := by
  cases l with
  | waitpid r =>
    cases r with
    | none =>
      exact congrArg some (view_goto (.of_ret (Or.inl hpc) (by cases k <;> rfl)))
    | some r => exact map_ite Iff.rfl (congrArg some view_view) (congrArg some (reaped_view hpc))
  | _ => rfl

theorem managerDestroy_view {pt : DestroyPoint} {how : Exit} (hpc : s.pc = .destroy pt how) :
    (s.view.managerDestroy how pt l).map view = (s.managerDestroy how pt l).map view := by
  unfold managerDestroy
  split
  · -- everything is dead to a process that ends
    exact congrArg some (view_goto (.of_leaving rfl))
  · exact map_ite Iff.rfl (congrArg some (view_goto (.of_leaving rfl))) rfl
  · exact congrArg some (view_goto (.of_leaving rfl))
  · have hclosed : ({ s.view with connection := -1 }.goto (.gone how)).view =
        ({ s with connection := -1 }.goto (.gone how)).view :=
      goto_view (congrArg (fun m : Manager => { m with connection := -1 }) view_view)
        (.of_leaving rfl)
    exact congrArg some (timerfd_view hclosed (-1))
  · rfl

/-- `send_message` has sent a result: it is known to have done so from now on. -/
theorem sent_view {m : Message} {k : SendRet} (h : s.view = t.view) (hpc : s.pc = .send m k) :
    ({ s with resultSendback := true }.goto k.pc).view =
      ({ t with resultSendback := true }.goto k.pc).view := by
  have hs := same_of_view h
  have hpc' : t.pc = .send m k := hs.pc ▸ hpc
  -- nothing else is dead at the two points
  have htimerfd : s.timerfd = t.timerfd := by
    simpa [view, untimed, Pc.dead, Pc.leaving, hpc, hpc'] using hs.timerfd
  have hout : s.out.view false = t.out.view false := by
    simpa [view, Pc.dead, Pc.leaving, hpc, hpc'] using hs.out
  have herr : s.err.view false = t.err.view false := by
    simpa [view, Pc.dead, Pc.leaving, hpc, hpc'] using hs.err
  cases k <;> exact Same.view { hs with
    timerfd := htimerfd, out := hout, err := herr, answered := rfl, response := rfl, pc := rfl }

theorem sendMessage_view {m : Message} {k : SendRet} (hpc : s.pc = .send m k) :
    (sendMessage E s.view m k l).map view = (sendMessage E s m k l).map view := by
  cases l with
  | tau => exact map_ite Iff.rfl (congrArg some view_raise) rfl
  | write data r =>
    refine map_ite Iff.rfl ?_ rfl
    cases r with
    | wrote n =>
      refine map_ite Iff.rfl (congrArg some ?_) (congrArg some view_raise)
      -- only a result brings `result_sendback` back to life
      cases hm : m.isResult with
      | true =>
        rw [Bool.or_true, Bool.or_true]
        exact sent_view view_view hpc
      | false =>
        have hlive : s.pc.live = true := live_of_eq hpc (by rw [Pc.live, hm]; rfl)
        rw [Bool.or_false, Bool.or_false]
        exact view_goto (.of_live hlive)
    | failed => exact congrArg some view_raise
    | sigpipe => exact congrArg some (view_goto (.of_leaving rfl))
  | _ => rfl

theorem received_view {data : Bytes} {m : Message} {rest : List Int} (hlive : s.pc.live = true) :
    (received E s.view data m rest).view = (received E s data m rest).view := by
  have hgoto : ∀ pc, (s.view.goto pc).view = (s.goto pc).view := fun pc =>
    view_goto (.of_live hlive)
  have hrequest : ∀ r pc, ({ s.view with request := r }.goto pc).view =
      ({ s with request := r }.goto pc).view := fun r pc =>
    goto_view (request_view hlive r) (.of_live hlive)
  unfold received
  cases m.method with
  -- `request` is overwritten by an EXE, and its `backend` by LIST
  | ack => exact congrArg (fun t : Manager => { t with isSyn := false }) (hgoto (.dispatch rest))
  | exe =>
    cases E.loadRequest m.getRequest with
    | none => exact hrequest m.getRequest (.spinning 0)
    | some r => exact hrequest r (.handle .entry data rest)
  | list => exact hrequest { s.request with backend := false } (.list .lock [] rest)
  | _ => exact hgoto _

theorem recvMessage_view {data : Bytes} {rest : List Int} (hpc : s.pc = .recv data rest) :
    (recvMessage E s.view data rest l).map view = (recvMessage E s data rest l).map view := by
  have hlive : s.pc.live = true := live_of_eq hpc rfl
  cases l with
  | read r =>
    cases r with
    | some c => exact goto_live hlive _
    | none =>
      have hclosed : ({ s.view with synTimeout := -1 }.goto (.disconnect rest)).view =
          ({ s with synTimeout := -1 }.goto (.disconnect rest)).view :=
        goto_view (congrArg (fun t : Manager => { t with synTimeout := -1 }) view_view)
          (.of_live hlive)
      -- the end of the stream: no bytes have been read
      refine map_ite Iff.rfl (congrArg some hclosed) ?_
      cases E.parse data with
      | none => exact congrArg some view_raise
      | some m => exact congrArg some (received_view hlive)
  | _ => rfl

theorem envRound_view {added : ℕ} (hpc : s.pc = .spinning added) :
    (s.view.envRound added l).map view = (s.envRound added l).map view := by
  cases l with
  | tau => exact goto_live (live_of_eq hpc rfl) _
  | _ => rfl

theorem disconnect_view {rest : List Int} (hpc : s.pc = .disconnect rest) :
    (s.view.disconnect rest l).map view = (s.disconnect rest l).map view := by
  have hlive : s.pc.live = true := live_of_eq hpc rfl
  have hback : s.view.resultSendback = s.resultSendback := answered_of_live hlive
  have hgoto : ∀ pc, ({ s.view with connection := -1 }.goto pc).view =
      ({ s with connection := -1 }.goto pc).view := fun pc =>
    goto_view (congrArg (fun t : Manager => { t with connection := -1 }) view_view) (.of_live hlive)
  cases l with
  | epollDel fd =>
    refine map_ite Iff.rfl (congrArg some ?_) rfl
    -- a foreground command whose result has not been sent is stopped
    have hstop : (!s.view.request.backend && !s.view.resultSendback) = true ↔
        (!s.request.backend && !s.resultSendback) = true := by
      rw [hback]
      rfl
    exact ite_view hstop (hgoto _) (hgoto _)
  | _ => rfl

theorem listBranch_view {pt : ListPoint} {acc : List Runproc} {rest : List Int}
    (hpc : s.pc = .list pt acc rest) :
    (listBranch E s.view acc rest pt l).map view = (listBranch E s acc rest pt l).map view := by
  have hlive : s.pc.live = true := live_of_eq hpc rfl
  unfold listBranch
  split
  · exact goto_live hlive _
  · exact goto_live hlive _
  · exact goto_live hlive _
  · exact goto_live hlive _
  · refine map_ite Iff.rfl ?_ rfl
    split
    · exact goto_live hlive _
    · split
      · exact goto_live hlive _
      · exact goto_live hlive _
  · exact goto_live hlive _
  · exact congrArg some view_raise
  · rfl

theorem stopBranch_view {pt : StopPoint} {procs : List Runproc} {rest : List Int}
    (hpc : s.pc = .stop pt procs rest) :
    (s.view.stopBranch procs rest pt l).map view = (s.stopBranch procs rest pt l).map view := by
  have hlive : s.pc.live = true := live_of_eq hpc rfl
  unfold stopBranch
  split
  · split
    · exact goto_live hlive _
    · exact goto_live hlive _
  · exact goto_live hlive _
  · refine map_ite Iff.rfl ?_ rfl
    split
    · exact goto_live hlive _
    · exact goto_live hlive _
    · exact goto_live hlive _
  · exact map_ite Iff.rfl (goto_live hlive _) rfl
  · exact goto_live hlive _
  · exact congrArg some view_raise
  · rfl

/-- The result of an ended command is the same, if it is not dead. -/
theorem resultMessage_view (hlive : s.pc.live = true) (hback : s.resultSendback = false)
    (hexit : s.childStatus = .procExit) : s.view.resultMessage = s.resultMessage := by
  have hresponse : s.view.response = s.response := by
    rw [view_of_live hlive]
    show s.response.view s.resultSendback (s.childStatus = .procRunning) = s.response
    rw [hback, hexit]
    rfl
  unfold resultMessage
  rw [hresponse]
  rfl

theorem execOver_view (hlive : s.pc.live = true) : s.view.execOver = s.execOver := by
  have hover : ∀ o : Output, (o.view false).«over» = o.over := fun _ => rfl
  rw [view_of_live hlive]
  unfold execOver
  rw [hover, hover]

theorem loopCheck_view (hpc : s.pc = .loopCheck) : s.view.loopCheck = s.loopCheck := by
  have hlive : s.pc.live = true := live_of_eq hpc rfl
  have hback : s.view.resultSendback = s.resultSendback := answered_of_live hlive
  unfold loopCheck
  rw [execOver_view hlive, hback, view_connection, view_processStop, view_childStatus]
  split
  · next hover =>
    -- the result is built when the command has ended, where the response is not dead
    have hexit : s.childStatus = .procExit := by
      simp only [execOver, Bool.and_eq_true, decide_eq_true_eq] at hover
      exact hover.1.1
    split
    · rfl
    · split
      · next hnot => rw [resultMessage_view hlive (by simpa using hnot) hexit]
      · rfl
  · rfl

theorem epollReturn_view {r : EpollResult} (hpc : s.pc = .epollWait) :
    (s.view.epollReturn r).map view = (s.epollReturn r).map view := by
  have hlive : s.pc.live = true := live_of_eq hpc rfl
  cases r with
  | error => exact congrArg some view_raise
  | eintr => exact goto_live hlive _
  | timeout =>
    refine map_ite Iff.rfl rfl (map_ite Iff.rfl ?_ (goto_live hlive _))
    have hsyn : ({ s.view with isSyn := true }.goto (.send synMessage .heartbeat)).view =
        ({ s with isSyn := true }.goto (.send synMessage .heartbeat)).view :=
      goto_view (congrArg (fun t : Manager => { t with isSyn := true }) view_view) (.of_live hlive)
    exact map_ite Iff.rfl (congrArg some view_raise) (congrArg some hsyn)
  | ready fds => exact goto_live hlive _

theorem dispatch_view {fds : List Int} (hpc : s.pc = .dispatch fds) :
    s.view.dispatch fds = s.dispatch fds := by
  have hlive : s.pc.live = true := live_of_eq hpc rfl
  rw [view_of_live hlive]
  rfl

theorem managerStart_view (h : s.pc.live = true) :
    (s.view.managerStart s.pc l).map view = (s.managerStart s.pc l).map view := by
  unfold managerStart
  split
  · next fd _ =>
    -- `epoll_create1`
    have hfd : ∀ pc, ({ s.view with epollfd := fd }.goto pc).view =
        ({ s with epollfd := fd }.goto pc).view := fun pc => view_goto (s := s) (.of_live h)
    exact congrArg some (ite_view Iff.rfl (hfd _) (hfd _))
  · -- the connection is registered
    refine map_ite Iff.rfl (congrArg some ?_) rfl
    exact ite_view Iff.rfl (view_goto (.of_live h)) view_raise
  · next hpc =>
    rw [loopCheck_view hpc]
    exact goto_live h _
  · -- the look at `process_stop`
    exact congrArg some (ite_view Iff.rfl (view_goto (.of_live h)) (view_goto (.of_live h)))
  · next hpc => exact epollReturn_view hpc
  · next hpc =>
    rw [dispatch_view hpc]
    exact goto_live h _
  · next rest reads hpc =>
    -- `out.receive`
    have hout : ({ s.view with out := (s.view.out.receive reads).1 } : Manager).view =
        ({ s with out := (s.out.receive reads).1 } : Manager).view := by
      refine out_view view_view (Output.view_of_view ?_)
      rw [out_of_live h]
      exact receive_view
    exact congrArg some (goto_view hout (.of_live h))
  · next rest reads hpc =>
    -- `err.receive`
    have herr : ({ s.view with err := (s.view.err.receive reads).1 } : Manager).view =
        ({ s with err := (s.err.receive reads).1 } : Manager).view := by
      refine err_view view_view (Output.view_of_view ?_)
      rw [err_of_live h]
      exact receive_view
    exact congrArg some (goto_view herr (.of_live h))
  · next rest fd hpc =>
    -- the timer has fired: it is not dead here
    refine map_ite (by rw [timerfd_of_live h]) (congrArg some ?_) rfl
    have hstat := written_view (view_view (s := s)) s.childStatus
      (f := fun r => { r with stat := .timeout }) fun _ _ => rfl
    exact goto_view (timerfd_view hstat (-1)) (.of_live h)
  · rfl

theorem writeLeaf_view {file : CgroupFile} {value : String} {next : Pc}
    (hf : Pc.Fades s.request.backend s.pc next) :
    (s.view.writeLeaf file value next l).map view = (s.writeLeaf file value next l).map view := by
  cases l with
  | writeCgroup pid f v r =>
    refine map_ite Iff.rfl ?_ rfl
    cases r with
    | failed kept => exact congrArg some view_raise
    | _ => exact congrArg some (view_goto hf)
  | _ => rfl

/-- What is dead at `pt` is dead at `pt'`. -/
def fades (pt pt' : HandlePoint) : Bool :=
  (!pt.cloned || pt'.cloned) && (!pt.untimed || pt'.untimed) &&
    (!pt.unbound false || pt'.unbound false) && (!pt.unbound true || pt'.unbound true)

theorem fades_handle {pt pt' : HandlePoint} {data : Bytes} {rest : List Int}
    {backend : Bool} (h : fades pt pt' = true) :
    Pc.Fades backend (.handle pt data rest) (.handle pt' data rest) := by
  simp only [fades, Bool.and_eq_true, Bool.or_eq_true, Bool.not_eq_true'] at h
  obtain ⟨⟨⟨hcloned, huntimed⟩, hout⟩, herr⟩ := h
  have imp : ∀ {a b : Bool}, a = false ∨ b = true → a = true → b = true := by
    rintro a b (rfl | rfl) ha
    · cases ha
    · rfl
  refine ⟨fun hb => ?_, imp huntimed, fun b => ?_⟩
  · obtain ⟨rfl, hpt⟩ := Bool.and_eq_true_iff.mp hb
    exact imp hcloned hpt
  · cases b
    · exact imp hout
    · exact imp herr

/-- `load` and `bind` return, or throw. -/
theorem match_view {r r' : Output × Bool} {f f' g g' : Output → Manager} (hret : r.2 = r'.2)
    (hf : (f r.1).view = (f' r'.1).view) (hg : (g r.1).view = (g' r'.1).view) :
    (match r with
      | (o, true) => some (f o)
      | (o, false) => some (g o)).map view =
    (match r' with
      | (o, true) => some (f' o)
      | (o, false) => some (g' o)).map view := by
  obtain ⟨o, ok⟩ := r
  obtain ⟨o', ok'⟩ := r'
  obtain rfl : ok = ok' := hret
  cases ok with
  | true => exact congrArg some hf
  | false => exact congrArg some hg

theorem loadOut_view {data : Bytes} {rest : List Int} (hpc : s.pc = .handle .loadOut data rest) :
    (s.view.handleRequest data rest .loadOut l).map view =
      (s.handleRequest data rest .loadOut l).map view := by
  have hlive : s.pc.live = true := live_of_eq hpc rfl
  cases l with
  | load found pipe =>
    obtain ⟨hload, hret⟩ :=
      load_view s.out s.request.outmode s.request.outfile s.request.backend found pipe
    rw [← out_of_live hlive] at hload hret
    have hout := out_view (view_view (s := s)) (Output.view_of_view hload)
    exact match_view hret (goto_view hout (.of_live hlive)) (goto_view hout (.of_leaving rfl))
  | _ => rfl

theorem loadErr_view {data : Bytes} {rest : List Int} (hpc : s.pc = .handle .loadErr data rest) :
    (s.view.handleRequest data rest .loadErr l).map view =
      (s.handleRequest data rest .loadErr l).map view := by
  have hlive : s.pc.live = true := live_of_eq hpc rfl
  cases l with
  | load found pipe =>
    obtain ⟨hload, hret⟩ :=
      load_view s.err s.request.errmode s.request.errfile s.request.backend found pipe
    rw [← err_of_live hlive] at hload hret
    have herr := err_view (view_view (s := s)) (Output.view_of_view hload)
    exact match_view hret (goto_view herr (.of_live hlive)) (goto_view herr (.of_leaving rfl))
  | _ => rfl

theorem bindOut_view {data : Bytes} {rest : List Int} (hpc : s.pc = .handle .bindOut data rest) :
    (s.view.handleRequest data rest .bindOut l).map view =
      (s.handleRequest data rest .bindOut l).map view := by
  cases l with
  | bind fd added =>
    obtain ⟨hbind, hret⟩ := bind_view s.out fd added
    have hview : s.view.out = s.out.view true := by
      show s.out.view (s.pc.dead _) = _
      rw [hpc]
      rfl
    rw [← hview] at hbind hret
    have hout := out_view (view_view (s := s)) (Output.view_of_view hbind)
    -- the stream was dead before it is bound, and is not dead after
    refine match_view hret ?_ (goto_view hout (.of_leaving rfl))
    have hs := same_of_view (view_view (s := s))
    obtain ⟨⟩ := s
    obtain rfl := hpc
    exact Same.view { hs with out := hbind, pc := rfl }
  | _ => rfl

theorem bindErr_view {data : Bytes} {rest : List Int} (hpc : s.pc = .handle .bindErr data rest) :
    (s.view.handleRequest data rest .bindErr l).map view =
      (s.handleRequest data rest .bindErr l).map view := by
  cases l with
  | bind fd added =>
    obtain ⟨hbind, hret⟩ := bind_view s.err fd added
    have hview : s.view.err = s.err.view true := by
      show s.err.view (s.pc.dead _) = _
      rw [hpc]
      rfl
    rw [← hview] at hbind hret
    have herr := err_view (view_view (s := s)) (Output.view_of_view hbind)
    -- the stream was dead before it is bound, and is not dead after
    refine match_view hret ?_ (goto_view herr (.of_leaving rfl))
    have hs := same_of_view (view_view (s := s))
    obtain ⟨⟩ := s
    obtain rfl := hpc
    exact Same.view { hs with err := hbind, pc := rfl }
  | _ => rfl

/-- The timer is created, or there is none; then an old one would not be dead. -/
theorem timer_view {data : Bytes} {rest : List Int} (hpc : s.pc = .handle .timer data rest) :
    (s.view.handleRequest data rest .timer l).map view =
      (s.handleRequest data rest .timer l).map view := by
  have hs := same_of_view (view_view (s := s))
  cases l with
  | tau =>
    by_cases ht : s.request.timeout < 0
    · show (if s.request.timeout < 0 then some (s.view.goto _) else none).map view =
        (if s.request.timeout < 0 then some (s.goto _) else none).map view
      rw [if_pos ht, if_pos ht]
      -- no timer is created for this request, so `timerfd` was not dead
      have htimer : s.view.timerfd = s.timerfd := by
        simp [view, untimed, Int32.not_le.mpr ht]
      obtain ⟨⟩ := s
      obtain rfl := hpc
      exact congrArg some (Same.view { hs with timerfd := htimer, pc := rfl })
    · show (if s.request.timeout < 0 then some (s.view.goto _) else none).map view =
        (if s.request.timeout < 0 then some (s.goto _) else none).map view
      rw [if_neg ht, if_neg ht]
  | timerfdCreate fd =>
    -- `timerfd` is written, dead or not
    refine map_ite Iff.rfl rfl (congrArg some (ite_view Iff.rfl ?_ ?_))
    · exact goto_view (timerfd_view view_view fd) (.of_leaving rfl)
    · obtain ⟨⟩ := s
      obtain rfl := hpc
      exact Same.view { hs with timerfd := rfl, pc := rfl }
  | _ => rfl

theorem clone_view {data : Bytes} {rest : List Int} (hpc : s.pc = .handle .clone data rest) :
    (s.view.handleRequest data rest .clone l).map view =
      (s.handleRequest data rest .clone l).map view := by
  have hlive : s.pc.live = true := live_of_eq hpc rfl
  cases l with
  | clone pid =>
    have hpid : ∀ {t u : Manager}, t.view = u.view → ({ t with clonepid := pid } : Manager).view =
        ({ u with clonepid := pid } : Manager).view := fun h =>
      congrArg (fun t : Manager => { t with clonepid := pid }) h
    have hrun := written_view (view_view (s := s)) .procRunning (f := id) fun _ _ => rfl
    exact map_ite Iff.rfl (congrArg some (goto_view (hpid view_view) (.of_leaving rfl)))
      (congrArg some (goto_view (hpid hrun) (.of_live hlive)))
  | _ => rfl

theorem handleRequest_view {pt : HandlePoint} {data : Bytes} {rest : List Int}
    (hpc : s.pc = .handle pt data rest) :
    (s.view.handleRequest data rest pt l).map view = (s.handleRequest data rest pt l).map view := by
  have hraise : (some s.view.raise).map view = (some s.raise).map view := congrArg some view_raise
  have hgoto : ∀ {pt'}, fades pt pt' = true →
      (s.view.goto (.handle pt' data rest)).view = (s.goto (.handle pt' data rest)).view :=
    fun h => view_goto (hpc ▸ fades_handle h)
  have hleaf : ∀ {file value pt'}, fades pt pt' = true →
      (s.view.writeLeaf file value (.handle pt' data rest) l).map view =
        (s.writeLeaf file value (.handle pt' data rest) l).map view :=
    fun h => writeLeaf_view (hpc ▸ fades_handle h)
  cases pt with
  | entry =>
    have hlive : s.pc.live = true := live_of_eq hpc rfl
    cases l with
    | tau =>
      -- `syn_timeout` is written for a backend command only
      have hsyn : ∀ n : Int, ({ s.view with synTimeout := n } : Manager).view =
          ({ s with synTimeout := n } : Manager).view := fun n =>
        congrArg (fun t : Manager => { t with synTimeout := n }) view_view
      exact map_ite Iff.rfl (goto_live hlive _)
        (congrArg some (goto_view (hsyn (if s.request.backend then -1 else s.synTimeout))
          (.of_live hlive)))
    | _ => rfl
  | find =>
    have hlive : s.pc.live = true := live_of_eq hpc rfl
    cases l with
    | lookup fs =>
      cases fs with
      | none => exact hraise
      | some fs =>
        simp only [handleRequest, view_request]
        -- BADARGS, or the request with the path that has been found
        split
        · exact goto_live hlive _
        · next r _ =>
          have hrequest : ({ s.view with request := r }.goto (.handle .loadOut data rest)).view =
              ({ s with request := r }.goto (.handle .loadOut data rest)).view :=
            goto_view (request_view hlive r) (.of_live hlive)
          exact congrArg some hrequest
    | _ => rfl
  | loadOut => exact loadOut_view hpc
  | loadErr => exact loadErr_view hpc
  | clone => exact clone_view hpc
  | leaf =>
    cases l with
    | createLeaf pid ok =>
      exact map_ite Iff.rfl (congrArg some (ite_view Iff.rfl (hgoto rfl) view_raise)) rfl
    | _ => rfl
  | memlimit =>
    simp only [handleRequest, view_request]
    split
    · exact hleaf rfl
    · exact map_ite Iff.rfl (congrArg some (hgoto rfl)) rfl
  | memswExists =>
    cases l with
    | memswExists pid r =>
      refine map_ite Iff.rfl ?_ rfl
      cases r with
      | none => exact hraise
      | some found => cases found <;> exact congrArg some (hgoto rfl)
    | _ => rfl
  | memswlimit =>
    simp only [handleRequest, view_request]
    split
    · exact hleaf rfl
    · exact map_ite Iff.rfl (congrArg some (hgoto rfl)) rfl
  | procs => exact hleaf rfl
  | notify => exact hleaf rfl
  | create =>
    cases l with
    | regCreate pid ok =>
      refine map_ite Iff.rfl ?_ rfl
      cases ok <;> exact congrArg some (hgoto rfl)
    | _ => rfl
  | write =>
    cases l with
    | regWrite pid d r =>
      refine map_ite Iff.rfl ?_ rfl
      cases r <;> exact congrArg some (hgoto rfl)
    | _ => rfl
  | bindOut => exact bindOut_view hpc
  | bindErr => exact bindErr_view hpc
  | timer => exact timer_view hpc
  | settime =>
    cases l with
    | timerfdSettime seconds ok =>
      exact map_ite Iff.rfl (congrArg some (ite_view Iff.rfl (hgoto rfl) view_raise)) rfl
    | _ => rfl
  | timerAdd =>
    cases l with
    | epollAdd fd ok =>
      have htimer : s.view.timerfd = s.timerfd := by
        simp [view, untimed, hpc, Pc.dead, HandlePoint.untimed]
      exact map_ite (by rw [htimer]) (congrArg some (ite_view Iff.rfl (hgoto rfl) view_raise)) rfl
    | _ => rfl
  | reply =>
    cases l with
    | tau =>
      -- `result_sendback` stays dead, or it has not been so
      have hreply : ∀ {pc}, (s.request.backend = true → pc.answers s.request.backend = true) →
          (s.view.goto pc).view = (s.goto pc).view := by
        intro pc hpc'
        refine view_goto ⟨fun h => ?_, fun h => ?_, fun b h => ?_⟩
        · rw [hpc] at h
          exact hpc' (Bool.and_eq_true_iff.mp h).1
        · rw [hpc] at h
          cases h
        · rw [hpc] at h
          cases h
      refine congrArg some ?_
      by_cases hb : s.request.backend = true
      · rw [if_pos (show s.view.request.backend = true from hb), if_pos hb]
        exact hreply fun _ => rfl
      · rw [if_neg (show ¬ s.view.request.backend = true from hb), if_neg hb]
        exact hreply fun h => absurd h hb
    | _ => rfl
  | lock | unlock | unlockThrow =>
    cases l with
    | flock op => cases op <;> first | rfl | exact congrArg some (hgoto rfl) | exact hraise
    | _ => rfl

/-- **What is dead is not read.** A step that is seen from the state is the one that is seen
from its view. -/
theorem step_view : (step E s l).map view = (step E s.view l).map view := by
  have hcode : (codeStep E s.view l).map view = (codeStep E s l).map view := by
    unfold codeStep
    rw [view_pc]
    split
    · next hpc => exact waitChild_view hpc
    · next hpc => exact argsRead_view hpc
    · next hpc => exact clearClonepid_view hpc
    · next hpc => exact stopChild_view hpc
    · next hpc => exact recvMessage_view hpc
    · next hpc => exact disconnect_view hpc
    · next hpc => exact handleRequest_view hpc
    · next hpc => exact listBranch_view hpc
    · next hpc => exact stopBranch_view hpc
    · next hpc => exact sendMessage_view hpc
    · next hpc => exact managerDestroy_view hpc
    · next hpc => exact envRound_view hpc
    · rfl
    · refine managerStart_view ?_
      cases hpc : s.pc <;> first | rfl | (exfalso; simp_all)
  cases l with
  | sigterm trusted =>
    refine map_ite Iff.rfl rfl (congrArg some ?_)
    exact (congrArg (fun t : Manager => { t with processStop := s.processStop || trusted })
      (view_view (s := s))).symm
  | _ => exact hcode.symm

end Manager
end Srun
