import Srun.Manager.State

/-!
# Steps of a manager process

`manager.cpp`, one definition for each of its functions. A definition takes the
state, the program point inside the function and the label, and gives the state
after the step, or `none` when the function cannot do what the label says at that
point. `Manager.step` dispatches on the program point.

A step is one system call, or a stretch of code without any (`tau`). An exception
that no handler of `manager.cpp` stops reaches the handler in the daemon's `main`,
which calls `manager_destroy` and returns (`Manager.raise`).
-/

namespace Srun
namespace Manager

/-- `exec_over`. -/
def execOver (s : Manager) : Bool :=
  s.childStatus = .procExit && s.out.over && s.err.over

/-- Go on at another program point. -/
@[simp] def goto (s : Manager) (pc : Pc) : Manager := { s with pc := pc }

/-- An exception leaves `manager_start`. -/
@[simp] def raise (s : Manager) : Manager := s.goto (.destroy .entry .uncaught)

/-! ### The messages a manager builds -/

/-- The result of the command: `response` with the captured outputs. -/
def resultMessage (s : Manager) : Message :=
  { method := .exe
    response := some { s.response with outstr := s.out.str, errstr := s.err.str } }

def synMessage : Message := { method := .syn }

def badArgsMessage : Message :=
  { method := .exe, response := some { stat := .badargs } }

def startedMessage : Message :=
  { method := .exe, response := some { stat := .normal, retval := 0 } }

def listMessage (runlist : List Runproc) : Message :=
  { method := .list, runlist := runlist }

def stopMessage : Message := { method := .stop }

/-- The entry of LIST for the registry file of `pid` with message `m`. -/
def runprocOf (pid : Int) (since : Int64) (m : Message) : Runproc :=
  { pid := Int32.ofInt pid, since := since, request := some m.getRequest }

/-! ### The functions of `manager.cpp` -/

/-- `stop_child`. -/
def stopChild (s : Manager) (k : StopRet) : Label → Option Manager
  | .tau => if s.childStatus = .procRunning then none else some (s.goto k.pc)
  | .kill pid =>
    if s.childStatus = .procRunning ∧ pid = s.clonepid then some (s.goto k.pc) else none
  | _ => none

/-- `clear_clonepid`. Its guard has been checked by `clearEntry`; `pid` is the
name in `clone_file` and `leaf`. -/
def clearClonepid (s : Manager) (pid : Int) (k : WaitRet) : ClearPoint → Label → Option Manager
  | .lock, .flock .ex => some (s.goto (.clear .unlink pid k))
  | .unlink, .unlink p => if p = pid then some (s.goto (.clear .unlock pid k)) else none
  | .unlock, .flock .un => some (s.goto (.clear .rmdir pid k))
  | .rmdir, .rmdir p => if p = pid then some (s.goto (.waitChild k)) else none
  | _, _ => none

/-- Entering `clear_clonepid`: nothing to do unless `clonepid` is positive. -/
def clearEntry (s : Manager) (k : WaitRet) : Manager :=
  if 0 < s.clonepid then { s with clonepid := 0, pc := .clear .lock s.clonepid k }
  else s.goto (.waitChild k)

/-- `wait_child` after `waitpid` has returned the command's pid. -/
def reaped (s : Manager) (st : WaitStatus) (k : WaitRet) : Manager :=
  -- `child_status` is set before the status is looked at
  let s := { s with childStatus := .procExit }
  match st with
  | .exited code =>
    { s with response.stat := .normal, response.retval := Int32.ofInt code.toNat }.clearEntry k
  | .signaled _ =>
    let s := { s with response.stat := .abnormal }
    -- the log line reads `request.args(0)`
    if s.request.args = [] then s.goto (.argsRead k) else s.clearEntry k
  | .other => { s with response.stat := .abnormal }.clearEntry k

/-- `wait_child`. -/
def waitChild (s : Manager) (k : WaitRet) : Label → Option Manager
  | .waitpid none => some (s.goto k.pc)
  -- another child's status is dropped and `waitpid` called again
  | .waitpid (some (pid, st)) => if s.clonepid ≠ pid then some s else some (s.reaped st k)
  | _ => none

/-- Reading an argument that is not there is undefined; the process dies of it or
goes on. -/
def argsRead (s : Manager) (k : WaitRet) : Label → Option Manager
  | .argsRead dies => some (if dies then s.goto (.gone .outOfRange) else s.clearEntry k)
  | _ => none

/-- `manager_destroy`, and the end of the process after it. -/
def managerDestroy (s : Manager) (how : Exit) : DestroyPoint → Label → Option Manager
  | .entry, .tau =>
    some (s.goto (.destroy (if s.childStatus = .procRunning then .kill else .close) how))
  | .kill, .kill pid => if pid = s.clonepid then some (s.goto (.destroy .sleep how)) else none
  | .sleep, .sleep => some (s.goto (.waitChild (.destroy how)))
  | .close, .tau =>
    some { s with connection := -1, epollfd := -1, timerfd := -1, pc := .gone how }
  | _, _ => none

/-- `send_message`. -/
def sendMessage (E : Env) (s : Manager) (m : Message) (k : SendRet) : Label → Option Manager
  | .tau => if (E.serialize m).getD [] = [] then some s.raise else none
  | .write data r =>
    -- one `write`; a short count is an error like any other
    if E.serialize m = some data ∧ data ≠ [] then
      match r with
      | .wrote n =>
        if n = data.length then
          some ({ s with resultSendback := s.resultSendback || m.isResult }.goto k.pc)
        else some s.raise
      | .failed => some s.raise
      | .sigpipe => some (s.goto (.gone .sigpipe))
    else none
  | _ => none

/-- `recv_message` once a message has been parsed. -/
def received (E : Env) (s : Manager) (data : Bytes) (m : Message) (evs : List Int) : Manager :=
  match m.method with
  -- the message itself goes back, not the ACK prepared in `sendback`
  | .syn => s.goto (.send m (.reply evs))
  | .ack => { s with isSyn := false, pc := .dispatch evs }
  | .exe =>
    match E.loadRequest m.getRequest with
    | some r => { s with request := r, pc := .handle .entry data evs }
    -- `loadRequest` does not return; nothing reads again what it makes of the request
    | none => { s with request := m.getRequest, pc := .spinning 0 }
  | .list => { s with request.backend := false, pc := .list .lock [] evs }
  | .stop => s.goto (.stop .next m.runlist evs)
  | .other _ => s.goto (.dispatch evs)

/-- One more round of the loop in `Config::fillRequest` that never ends: the same key is read
again, and its value added. -/
def envRound (s : Manager) (added : ℕ) : Label → Option Manager
  | .tau => some (s.goto (.spinning (added + 1)))
  | _ => none

/-- `recv_message`: reading and parsing. -/
def recvMessage (E : Env) (s : Manager) (data : Bytes) (evs : List Int) : Label → Option Manager
  | .read (some c) => some (s.goto (.recv (data ++ c.bytes) evs))
  | .read none =>
    -- the client has closed its end
    if data = [] then some { s with synTimeout := -1, pc := .disconnect evs }
    else match E.parse data with
      | some m => some (received E s data m evs)
      | none => some s.raise
  | _ => none

/-- `recv_message`: the connection is closed. -/
def disconnect (s : Manager) (evs : List Int) : Label → Option Manager
  | .epollDel fd =>
    if fd = s.connection then
      let s := { s with connection := -1 }
      some (if !s.request.backend && !s.resultSendback then s.goto (.stopChild (.closed evs))
        else s.goto (.dispatch evs))
    else none
  | _ => none

/-- `recv_message`: the LIST branch. -/
def listBranch (E : Env) (s : Manager) (acc : List Runproc) (evs : List Int) :
    ListPoint → Label → Option Manager
  | .lock, .flock .sh => some (s.goto (.list .next acc evs))
  | .next, .readdir (.entry pid) => some (s.goto (.list (.read pid) acc evs))
  | .next, .readdir .done => some (s.goto (.list .unlock acc evs))
  | .next, .readdir .error => some (s.goto (.list .unlockThrow acc evs))
  | .read pid, .readEntry p r =>
    if p = pid then
      match r with
      | none => some (s.goto (.list .unlockThrow acc evs))
      | some (data, since) =>
        match E.parse data with
        | none => some (s.goto (.list .unlockThrow acc evs))
        | some m => some (s.goto (.list .next (acc ++ [runprocOf pid since m]) evs))
    else none
  | .unlock, .flock .un => some (s.goto (.send (listMessage acc) (.reply evs)))
  | .unlockThrow, .flock .un => some s.raise
  | _, _ => none

/-- `recv_message`: the STOP branch; the head of `procs` is the current one. -/
def stopBranch (s : Manager) (procs : List Runproc) (evs : List Int) :
    StopPoint → Label → Option Manager
  | .next, .tau =>
    match procs with
    | [] => some (s.goto (.send stopMessage (.reply evs)))
    | _ :: _ => some (s.goto (.stop .lock procs evs))
  | .lock, .flock .sh => some (s.goto (.stop .check procs evs))
  | .check, .regExists pid r =>
    if procs.head?.map (·.pid.toInt) = some pid then
      match r with
      | none => some (s.goto (.stop .unlockThrow procs evs))
      | some true => some (s.goto (.stop .kill procs evs))
      | some false => some (s.goto (.stop .unlock procs evs))
    else none
  | .kill, .kill pid =>
    if procs.head?.map (·.pid.toInt) = some pid then some (s.goto (.stop .unlock procs evs))
    else none
  | .unlock, .flock .un => some (s.goto (.stop .next procs.tail evs))
  | .unlockThrow, .flock .un => some s.raise
  | _, _ => none

/-- Writing one file of the leaf in `handle_request`. -/
def writeLeaf (s : Manager) (file : CgroupFile) (value : String) (next : Pc) :
    Label → Option Manager
  | .writeCgroup pid f v r =>
    if pid = s.clonepid ∧ f = file ∧ v = value then
      match r with
      | .failed _ => some s.raise
      | _ => some (s.goto next)
    else none
  | _ => none

/-- `handle_request`. -/
def handleRequest (s : Manager) (data : Bytes) (evs : List Int) :
    HandlePoint → Label → Option Manager
  | .entry, .tau =>
    -- a command is there already: the request is dropped without an answer
    if 0 < s.clonepid then some (s.goto (.dispatch evs))
    else some { s with
      synTimeout := if s.request.backend then -1 else s.synTimeout
      pc := .handle .find data evs }
  | .find, .lookup none => some s.raise
  | .find, .lookup (some fs) =>
    match findCommand fs s.request with
    | (false, _) => some (s.goto (.send badArgsMessage (.badArgs evs)))
    | (true, r) => some { s with request := r, pc := .handle .loadOut data evs }
  | .loadOut, .load found pipe =>
    match s.out.load s.request.outmode s.request.outfile s.request.backend found pipe with
    | (o, true) => some { s with out := o, pc := .handle .loadErr data evs }
    | (o, false) => some { s with out := o }.raise
  | .loadErr, .load found pipe =>
    match s.err.load s.request.errmode s.request.errfile s.request.backend found pipe with
    | (o, true) => some { s with err := o, pc := .handle .clone data evs }
    | (o, false) => some { s with err := o }.raise
  | .clone, .clone pid =>
    let s := { s with clonepid := pid }
    -- `clonepid` is assigned even when the call has failed
    if pid = -1 then some s.raise
    else some { s with childStatus := .procRunning, pc := .handle .leaf data evs }
  | .leaf, .createLeaf pid ok =>
    if pid = s.clonepid then
      some (if ok then s.goto (.handle .memlimit data evs) else s.raise)
    else none
  | .memlimit, l =>
    match s.request.memlimitValue with
    | some v => s.writeLeaf .memlimit v (.handle .memswExists data evs) l
    | none => if l matches .tau then some (s.goto (.handle .memswExists data evs)) else none
  | .memswExists, .memswExists pid r =>
    if pid = s.clonepid then
      match r with
      | none => some s.raise
      | some true => some (s.goto (.handle .memswlimit data evs))
      | some false => some (s.goto (.handle .procs data evs))
    else none
  | .memswlimit, l =>
    match s.request.memswlimitValue with
    | some v => s.writeLeaf .memswlimit v (.handle .procs data evs) l
    | none => if l matches .tau then some (s.goto (.handle .procs data evs)) else none
  | .procs, l => s.writeLeaf .procs (toString s.clonepid) (.handle .notify data evs) l
  | .notify, l => s.writeLeaf .notify "1" (.handle .lock data evs) l
  | .lock, .flock .ex => some (s.goto (.handle .create data evs))
  | .create, .regCreate pid ok =>
    if pid = s.clonepid then
      some (s.goto (.handle (if ok then .write else .unlockThrow) data evs))
    else none
  | .write, .regWrite pid d r =>
    if pid = s.clonepid ∧ d = data then
      match r with
      | .failed _ => some (s.goto (.handle .unlockThrow data evs))
      | _ => some (s.goto (.handle .unlock data evs))
    else none
  | .unlock, .flock .un => some (s.goto (.handle .bindOut data evs))
  | .unlockThrow, .flock .un => some s.raise
  | .bindOut, .bind fd added =>
    match s.out.bind fd added with
    | (o, true) => some { s with out := o, pc := .handle .bindErr data evs }
    | (o, false) => some { s with out := o }.raise
  | .bindErr, .bind fd added =>
    match s.err.bind fd added with
    | (o, true) => some { s with err := o, pc := .handle .timer data evs }
    | (o, false) => some { s with err := o }.raise
  | .timer, .tau =>
    -- no timer is wanted; `timerfd` keeps its value
    if s.request.timeout < 0 then some (s.goto (.handle .reply data evs)) else none
  | .timer, .timerfdCreate fd =>
    if s.request.timeout < 0 then none
    else
      let s := { s with timerfd := fd }
      some (if fd = -1 then s.raise else s.goto (.handle .settime data evs))
  | .settime, .timerfdSettime seconds ok =>
    if seconds = s.request.timeoutSeconds then
      some (if ok then s.goto (.handle .timerAdd data evs) else s.raise)
    else none
  | .timerAdd, .epollAdd fd ok =>
    if fd = s.timerfd then some (if ok then s.goto (.handle .reply data evs) else s.raise)
    else none
  | .reply, .tau =>
    some (if s.request.backend then s.goto (.send startedMessage (.started evs))
      else s.goto (.dispatch evs))
  | _, _ => none

/-- `manager_start`: the part of the loop between `wait_child` and `stop_child`. -/
def loopCheck (s : Manager) : Pc :=
  if s.execOver then
    -- the command is over: leave, or send its result if that has not been done
    if s.connection = -1 ∨ s.processStop then .destroy .entry .exit0
    else if !s.resultSendback then .send s.resultMessage .result
    else .stopCheck
  else if s.childStatus = .noProc ∧ s.connection = -1 then .destroy .entry .exit0
  else .stopCheck

/-- `manager_start`: `epoll_wait` and the check that the client is alive. -/
def epollReturn (s : Manager) : EpollResult → Option Manager
  | .error => some s.raise
  | .eintr => some (s.goto (.dispatch []))
  | .timeout =>
    -- with timeout -1 the call does not time out
    if s.synTimeout = -1 then none
    else if !s.request.backend ∧ s.connection ≠ -1 then
      if s.isSyn then some s.raise
      else some { s with isSyn := true, pc := .send synMessage .heartbeat }
    else some (s.goto (.dispatch []))
  | .ready fds => some (s.goto (.dispatch fds))

/-- `manager_start`: the next event of the batch. -/
def dispatch (s : Manager) : List Int → Pc
  | [] => .waitChild .loop
  | fd :: evs =>
    -- the comparisons in the order of the source
    if fd = s.connection then .recv [] evs
    else if fd = s.out.pipefd0 then .receive false evs
    else if fd = s.err.pipefd0 then .receive true evs
    else if s.timerfd ≠ -1 ∧ fd = s.timerfd then .stopChild (.timer evs)
    else .dispatch evs

/-- `manager_start`. -/
def managerStart (s : Manager) : Pc → Label → Option Manager
  | .epollCreate, .epollCreate1 fd =>
    let s := { s with epollfd := fd }
    some (if fd = -1 then s.raise else s.goto .epollAdd)
  | .epollAdd, .epollAdd fd ok =>
    if fd = s.connection then some (if ok then s.goto (.waitChild .loop) else s.raise) else none
  | .loopCheck, .tau => some (s.goto s.loopCheck)
  | .stopCheck, .tau =>
    some (if s.processStop then s.goto (.stopChild .loop) else s.goto .epollWait)
  | .epollWait, .epollWait r => s.epollReturn r
  | .dispatch evs, .tau => some (s.goto (s.dispatch evs))
  | .receive false evs, .receive reads =>
    some { s with out := (s.out.receive reads).1, pc := .dispatch evs }
  | .receive true evs, .receive reads =>
    some { s with err := (s.err.receive reads).1, pc := .dispatch evs }
  | .timerEvent evs, .epollDel fd =>
    if fd = s.timerfd then
      some { s with timerfd := -1, response.stat := .timeout, pc := .dispatch evs }
    else none
  | _, _ => none

/-- One step of the code, at the current program point. -/
def codeStep (E : Env) (s : Manager) (l : Label) : Option Manager :=
  match s.pc with
  | .waitChild k => s.waitChild k l
  | .argsRead k => s.argsRead k l
  | .clear pt pid k => s.clearClonepid pid k pt l
  | .stopChild k => s.stopChild k l
  | .recv data evs => recvMessage E s data evs l
  | .disconnect evs => s.disconnect evs l
  | .handle pt data evs => s.handleRequest data evs pt l
  | .list pt acc evs => listBranch E s acc evs pt l
  | .stop pt procs evs => s.stopBranch procs evs pt l
  | .send m k => sendMessage E s m k l
  | .destroy pt how => s.managerDestroy how pt l
  | .spinning added => s.envRound added l
  | .gone _ => none
  | pc => s.managerStart pc l

/-- One step of a manager: the signal handler, which runs at any point, or the code. -/
def step (E : Env) (s : Manager) : Label → Option Manager
  | .sigterm trusted =>
    if s.pc matches .gone _ then none
    else some { s with processStop := s.processStop || trusted }
  | l => codeStep E s l

end Manager
end Srun
