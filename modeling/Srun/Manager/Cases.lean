import Srun.Manager.Step

/-!
# What one step of a manager can do

`Manager.Step E s l s'` lists the steps of a manager by name, each with its guard
and the state it leads to. `Manager.step_cases` says that the list is complete:
every step that `Manager.step` takes is one of them. All invariants of the manager
are proved by cases on `Step`, so that a change of one function of the source
touches its arms here and in `Manager.step` only.

The steps that throw and change nothing else are one rule, `Step.throws`, with the
program points and labels at which this happens in `Pc.throws`.
-/

namespace Srun

/-- The call at a point throws upon a result, and no variable has changed. -/
def Pc.throws : Pc → Label → Bool
  | .epollAdd, .epollAdd _ false | .epollWait, .epollWait _ | .recv _ _, .read none
  | .send _ _, .tau | .send _ _, .write _ .failed
  | .handle .find _ _, .lookup none | .handle .leaf _ _, .createLeaf _ false
  | .handle .memlimit _ _, .writeCgroup _ _ _ (.failed _)
  | .handle .memswExists _ _, .memswExists _ none
  | .handle .memswlimit _ _, .writeCgroup _ _ _ (.failed _)
  | .handle .procs _ _, .writeCgroup _ _ _ (.failed _)
  | .handle .notify _ _, .writeCgroup _ _ _ (.failed _)
  | .handle .settime _ _, .timerfdSettime _ false
  | .handle .timerAdd _ _, .epollAdd _ false => true
  | .send _ _, .write data (.wrote n) => n ≠ data.length
  | _, _ => false

/-- The points of `Pc.throws`. -/
def Pc.throwing : Pc → Bool
  | .epollAdd | .epollWait | .recv .. | .send .. => true
  | .handle .find _ _ | .handle .leaf _ _ | .handle .memlimit _ _ | .handle .memswExists _ _
  | .handle .memswlimit _ _ | .handle .procs _ _ | .handle .notify _ _
  | .handle .settime _ _ | .handle .timerAdd _ _ => true
  | _ => false

/-- The results of `Pc.throws`. -/
def Label.throwing : Label → Bool
  | .tau | .write _ .failed | .read none | .epollAdd _ false | .epollWait _ | .lookup none
  | .createLeaf _ false | .memswExists _ none | .writeCgroup _ _ _ (.failed _)
  | .timerfdSettime _ false => true
  | .write data (.wrote n) => n ≠ data.length
  | _ => false

theorem Pc.throwing_of_throws {pc : Pc} {l : Label} (h : pc.throws l = true) :
    pc.throwing = true ∧ l.throwing = true := by
  unfold throws at h
  split at h <;> first | exact ⟨rfl, rfl⟩ | exact ⟨rfl, h⟩ | cases h

/-- The unlock in a `catch` branch. -/
def Pc.unlockThrow : Pc → Bool
  | .handle .unlockThrow _ _ | .list .unlockThrow _ _ | .stop .unlockThrow _ _ => true
  | _ => false

/-- `write_file` returned normally. -/
def FileWrite.returned : FileWrite → Bool
  | .failed _ => false
  | _ => true

namespace Manager

/-- The steps of a manager, by name. -/
inductive Step (E : Env) (s : Manager) : Label → Manager → Prop
  | sigterm (trusted : Bool) (hpc : ∀ how, s.pc ≠ .gone how) :
      Step E s (.sigterm trusted) { s with processStop := s.processStop || trusted }
  | throws {l : Label} (hl : s.pc.throws l) : Step E s l s.raise
  | unlockThrow (hpc : s.pc.unlockThrow) : Step E s (.flock .un) s.raise
  -- `manager_start`
  | epollCreate {fd : Int} (hpc : s.pc = .epollCreate) (hfd : fd ≠ -1) :
      Step E s (.epollCreate1 fd) ({ s with epollfd := fd }.goto .epollAdd)
  | epollCreateFail (hpc : s.pc = .epollCreate) :
      Step E s (.epollCreate1 (-1)) { s with epollfd := -1 }.raise
  | epollAdd (hpc : s.pc = .epollAdd) :
      Step E s (.epollAdd s.connection true) (s.goto (.waitChild .loop))
  | loopCheck (hpc : s.pc = .loopCheck) : Step E s .tau (s.goto s.loopCheck)
  | stopCheckStop (hpc : s.pc = .stopCheck) (hstop : s.processStop = true) :
      Step E s .tau (s.goto (.stopChild .loop))
  | stopCheck (hpc : s.pc = .stopCheck) (hstop : s.processStop = false) :
      Step E s .tau (s.goto .epollWait)
  | epollEintr (hpc : s.pc = .epollWait) : Step E s (.epollWait .eintr) (s.goto (.dispatch []))
  | epollReady (fds : List Int) (hpc : s.pc = .epollWait) :
      Step E s (.epollWait (.ready fds)) (s.goto (.dispatch fds))
  | heartbeat (hpc : s.pc = .epollWait) (ht : s.synTimeout ≠ -1)
      (hb : s.request.backend = false) (hc : s.connection ≠ -1) (hsyn : s.isSyn = false) :
      Step E s (.epollWait .timeout) { s with isSyn := true, pc := .send synMessage .heartbeat }
  | epollIdle (hpc : s.pc = .epollWait) (ht : s.synTimeout ≠ -1)
      (h : s.request.backend = true ∨ s.connection = -1) :
      Step E s (.epollWait .timeout) (s.goto (.dispatch []))
  | dispatch (evs : List Int) (hpc : s.pc = .dispatch evs) : Step E s .tau (s.goto (s.dispatch evs))
  | receiveOut {evs : List Int} (reads : List (Chunk × Int)) (hpc : s.pc = .receive false evs) :
      Step E s (.receive reads) { s with out := (s.out.receive reads).1, pc := .dispatch evs }
  | receiveErr {evs : List Int} (reads : List (Chunk × Int)) (hpc : s.pc = .receive true evs) :
      Step E s (.receive reads) { s with err := (s.err.receive reads).1, pc := .dispatch evs }
  | timerEvent {evs : List Int} (hpc : s.pc = .timerEvent evs) :
      Step E s (.epollDel s.timerfd)
        { s with timerfd := -1, response.stat := .timeout, pc := .dispatch evs }
  -- `wait_child` and `clear_clonepid`
  | waitNone {k : WaitRet} (hpc : s.pc = .waitChild k) : Step E s (.waitpid none) (s.goto k.pc)
  | waitOther {k : WaitRet} {pid : Int} {st : WaitStatus} (hpc : s.pc = .waitChild k)
      (hpid : s.clonepid ≠ pid) : Step E s (.waitpid (some (pid, st))) s
  | reap {k : WaitRet} {st : WaitStatus} (hpc : s.pc = .waitChild k) :
      Step E s (.waitpid (some (s.clonepid, st))) (s.reaped st k)
  | argsDie {k : WaitRet} (hpc : s.pc = .argsRead k) :
      Step E s (.argsRead true) (s.goto (.gone .outOfRange))
  | argsSurvive {k : WaitRet} (hpc : s.pc = .argsRead k) :
      Step E s (.argsRead false) (s.clearEntry k)
  | clearLock {pid : Int} {k : WaitRet} (hpc : s.pc = .clear .lock pid k) :
      Step E s (.flock .ex) (s.goto (.clear .unlink pid k))
  | clearUnlink {pid : Int} {k : WaitRet} (hpc : s.pc = .clear .unlink pid k) :
      Step E s (.unlink pid) (s.goto (.clear .unlock pid k))
  | clearUnlock {pid : Int} {k : WaitRet} (hpc : s.pc = .clear .unlock pid k) :
      Step E s (.flock .un) (s.goto (.clear .rmdir pid k))
  | clearRmdir {pid : Int} {k : WaitRet} (hpc : s.pc = .clear .rmdir pid k) :
      Step E s (.rmdir pid) (s.goto (.waitChild k))
  -- `stop_child`
  | stopKill {k : StopRet} (hpc : s.pc = .stopChild k) (hrun : s.childStatus = .procRunning) :
      Step E s (.kill s.clonepid) (s.goto k.pc)
  | stopIdle {k : StopRet} (hpc : s.pc = .stopChild k) (hrun : s.childStatus ≠ .procRunning) :
      Step E s .tau (s.goto k.pc)
  -- `recv_message`
  | readChunk {data : Bytes} {evs : List Int} (c : Chunk) (hpc : s.pc = .recv data evs) :
      Step E s (.read (some c)) (s.goto (.recv (data ++ c.bytes) evs))
  | readNothing {evs : List Int} (hpc : s.pc = .recv [] evs) :
      Step E s (.read none) { s with synTimeout := -1, pc := .disconnect evs }
  | received {data : Bytes} {evs : List Int} {m : Message} (hpc : s.pc = .recv data evs)
      (hdata : data ≠ []) (hm : E.parse data = some m) :
      Step E s (.read none) (received E s data m evs)
  | disconnectStop {evs : List Int} (hpc : s.pc = .disconnect evs)
      (hb : s.request.backend = false) (hr : s.resultSendback = false) :
      Step E s (.epollDel s.connection) { s with connection := -1, pc := .stopChild (.closed evs) }
  | disconnect {evs : List Int} (hpc : s.pc = .disconnect evs)
      (h : s.request.backend = true ∨ s.resultSendback = true) :
      Step E s (.epollDel s.connection) { s with connection := -1, pc := .dispatch evs }
  -- the loop of `Config::fillRequest`, where it does not end
  | envRound {added : ℕ} (hpc : s.pc = .spinning added) :
      Step E s .tau (s.goto (.spinning (added + 1)))
  -- `recv_message`: LIST
  | listLock {acc : List Runproc} {evs : List Int} (hpc : s.pc = .list .lock acc evs) :
      Step E s (.flock .sh) (s.goto (.list .next acc evs))
  | listEntry {acc : List Runproc} {evs : List Int} (pid : Int) (hpc : s.pc = .list .next acc evs) :
      Step E s (.readdir (.entry pid)) (s.goto (.list (.read pid) acc evs))
  | listDone {acc : List Runproc} {evs : List Int} (hpc : s.pc = .list .next acc evs) :
      Step E s (.readdir .done) (s.goto (.list .unlock acc evs))
  | listError {acc : List Runproc} {evs : List Int} (hpc : s.pc = .list .next acc evs) :
      Step E s (.readdir .error) (s.goto (.list .unlockThrow acc evs))
  | listRead {pid : Int} {acc : List Runproc} {evs : List Int} {data : Bytes} {since : Int64}
      {m : Message} (hpc : s.pc = .list (.read pid) acc evs) (hm : E.parse data = some m) :
      Step E s (.readEntry pid (some (data, since)))
        (s.goto (.list .next (acc ++ [runprocOf pid since m]) evs))
  | listReadFail {pid : Int} {acc : List Runproc} {evs : List Int}
      {r : Option (Bytes × Int64)} (hpc : s.pc = .list (.read pid) acc evs) :
      Step E s (.readEntry pid r) (s.goto (.list .unlockThrow acc evs))
  | listUnlock {acc : List Runproc} {evs : List Int} (hpc : s.pc = .list .unlock acc evs) :
      Step E s (.flock .un) (s.goto (.send (listMessage acc) (.reply evs)))
  -- `recv_message`: STOP
  | stopEnd {evs : List Int} (hpc : s.pc = .stop .next [] evs) :
      Step E s .tau (s.goto (.send stopMessage (.reply evs)))
  | stopNext {p : Runproc} {procs : List Runproc} {evs : List Int}
      (hpc : s.pc = .stop .next (p :: procs) evs) :
      Step E s .tau (s.goto (.stop .lock (p :: procs) evs))
  | stopLock {procs : List Runproc} {evs : List Int} (hpc : s.pc = .stop .lock procs evs) :
      Step E s (.flock .sh) (s.goto (.stop .check procs evs))
  | stopFound {procs : List Runproc} {evs : List Int} {pid : Int}
      (hpc : s.pc = .stop .check procs evs) (hpid : procs.head?.map (·.pid.toInt) = some pid) :
      Step E s (.regExists pid (some true)) (s.goto (.stop .kill procs evs))
  | stopMissing {procs : List Runproc} {evs : List Int} {pid : Int}
      (hpc : s.pc = .stop .check procs evs) (hpid : procs.head?.map (·.pid.toInt) = some pid) :
      Step E s (.regExists pid (some false)) (s.goto (.stop .unlock procs evs))
  | stopCheckFail {procs : List Runproc} {evs : List Int} {pid : Int}
      (hpc : s.pc = .stop .check procs evs) (hpid : procs.head?.map (·.pid.toInt) = some pid) :
      Step E s (.regExists pid none) (s.goto (.stop .unlockThrow procs evs))
  | stopSignal {procs : List Runproc} {evs : List Int} {pid : Int}
      (hpc : s.pc = .stop .kill procs evs) (hpid : procs.head?.map (·.pid.toInt) = some pid) :
      Step E s (.kill pid) (s.goto (.stop .unlock procs evs))
  | stopUnlock {procs : List Runproc} {evs : List Int} (hpc : s.pc = .stop .unlock procs evs) :
      Step E s (.flock .un) (s.goto (.stop .next procs.tail evs))
  -- `handle_request`
  | handleReject {data : Bytes} {evs : List Int} (hpc : s.pc = .handle .entry data evs)
      (h : 0 < s.clonepid) : Step E s .tau (s.goto (.dispatch evs))
  | handleAccept {data : Bytes} {evs : List Int} (hpc : s.pc = .handle .entry data evs)
      (h : s.clonepid ≤ 0) :
      Step E s .tau { s with
        synTimeout := if s.request.backend then -1 else s.synTimeout
        pc := .handle .find data evs }
  | findMissing {data : Bytes} {evs : List Int} {fs : FileSystem}
      (hpc : s.pc = .handle .find data evs) (h : (findCommand fs s.request).1 = false) :
      Step E s (.lookup (some fs)) (s.goto (.send badArgsMessage (.badArgs evs)))
  | findFound {data : Bytes} {evs : List Int} {fs : FileSystem} {r : Request}
      (hpc : s.pc = .handle .find data evs) (h : findCommand fs s.request = (true, r)) :
      Step E s (.lookup (some fs)) { s with request := r, pc := .handle .loadOut data evs }
  | loadOut {data : Bytes} {evs : List Int} {found : Bool} {pipe : Option (Int × Int)} {o : Output}
      (hpc : s.pc = .handle .loadOut data evs)
      (h : s.out.load s.request.outmode s.request.outfile s.request.backend found pipe =
        (o, true)) :
      Step E s (.load found pipe) { s with out := o, pc := .handle .loadErr data evs }
  | loadOutFail {data : Bytes} {evs : List Int} {found : Bool} {pipe : Option (Int × Int)}
      {o : Output} (hpc : s.pc = .handle .loadOut data evs)
      (h : s.out.load s.request.outmode s.request.outfile s.request.backend found pipe =
        (o, false)) :
      Step E s (.load found pipe) { s with out := o }.raise
  | loadErr {data : Bytes} {evs : List Int} {found : Bool} {pipe : Option (Int × Int)} {o : Output}
      (hpc : s.pc = .handle .loadErr data evs)
      (h : s.err.load s.request.errmode s.request.errfile s.request.backend found pipe =
        (o, true)) :
      Step E s (.load found pipe) { s with err := o, pc := .handle .clone data evs }
  | loadErrFail {data : Bytes} {evs : List Int} {found : Bool} {pipe : Option (Int × Int)}
      {o : Output} (hpc : s.pc = .handle .loadErr data evs)
      (h : s.err.load s.request.errmode s.request.errfile s.request.backend found pipe =
        (o, false)) :
      Step E s (.load found pipe) { s with err := o }.raise
  | clone {data : Bytes} {evs : List Int} {pid : Int} (hpc : s.pc = .handle .clone data evs)
      (hpid : pid ≠ -1) :
      Step E s (.clone pid)
        { s with clonepid := pid, childStatus := .procRunning, pc := .handle .leaf data evs }
  | cloneFail {data : Bytes} {evs : List Int} (hpc : s.pc = .handle .clone data evs) :
      Step E s (.clone (-1)) { s with clonepid := -1 }.raise
  | leaf {data : Bytes} {evs : List Int} (hpc : s.pc = .handle .leaf data evs) :
      Step E s (.createLeaf s.clonepid true) (s.goto (.handle .memlimit data evs))
  | memlimit {data : Bytes} {evs : List Int} {v : String} {r : FileWrite}
      (hpc : s.pc = .handle .memlimit data evs) (hv : s.request.memlimitValue = some v)
      (hr : r.returned) :
      Step E s (.writeCgroup s.clonepid .memlimit v r) (s.goto (.handle .memswExists data evs))
  | memlimitSkip {data : Bytes} {evs : List Int} (hpc : s.pc = .handle .memlimit data evs)
      (hv : s.request.memlimitValue = none) :
      Step E s .tau (s.goto (.handle .memswExists data evs))
  | memswFound {data : Bytes} {evs : List Int} (hpc : s.pc = .handle .memswExists data evs) :
      Step E s (.memswExists s.clonepid (some true)) (s.goto (.handle .memswlimit data evs))
  | memswMissing {data : Bytes} {evs : List Int} (hpc : s.pc = .handle .memswExists data evs) :
      Step E s (.memswExists s.clonepid (some false)) (s.goto (.handle .procs data evs))
  | memswlimit {data : Bytes} {evs : List Int} {v : String} {r : FileWrite}
      (hpc : s.pc = .handle .memswlimit data evs) (hv : s.request.memswlimitValue = some v)
      (hr : r.returned) :
      Step E s (.writeCgroup s.clonepid .memswlimit v r) (s.goto (.handle .procs data evs))
  | memswlimitSkip {data : Bytes} {evs : List Int} (hpc : s.pc = .handle .memswlimit data evs)
      (hv : s.request.memswlimitValue = none) :
      Step E s .tau (s.goto (.handle .procs data evs))
  | procs {data : Bytes} {evs : List Int} {r : FileWrite} (hpc : s.pc = .handle .procs data evs)
      (hr : r.returned) :
      Step E s (.writeCgroup s.clonepid .procs (toString s.clonepid) r)
        (s.goto (.handle .notify data evs))
  | notify {data : Bytes} {evs : List Int} {r : FileWrite} (hpc : s.pc = .handle .notify data evs)
      (hr : r.returned) :
      Step E s (.writeCgroup s.clonepid .notify "1" r) (s.goto (.handle .lock data evs))
  | handleLock {data : Bytes} {evs : List Int} (hpc : s.pc = .handle .lock data evs) :
      Step E s (.flock .ex) (s.goto (.handle .create data evs))
  | create {data : Bytes} {evs : List Int} (hpc : s.pc = .handle .create data evs) :
      Step E s (.regCreate s.clonepid true) (s.goto (.handle .write data evs))
  | createFail {data : Bytes} {evs : List Int} (hpc : s.pc = .handle .create data evs) :
      Step E s (.regCreate s.clonepid false) (s.goto (.handle .unlockThrow data evs))
  | write {data : Bytes} {evs : List Int} {r : FileWrite} (hpc : s.pc = .handle .write data evs)
      (hr : r.returned) :
      Step E s (.regWrite s.clonepid data r) (s.goto (.handle .unlock data evs))
  | writeFail {data : Bytes} {evs : List Int} {kept : Bytes}
      (hpc : s.pc = .handle .write data evs) :
      Step E s (.regWrite s.clonepid data (.failed kept)) (s.goto (.handle .unlockThrow data evs))
  | handleUnlock {data : Bytes} {evs : List Int} (hpc : s.pc = .handle .unlock data evs) :
      Step E s (.flock .un) (s.goto (.handle .bindOut data evs))
  | bindOut {data : Bytes} {evs : List Int} {fd : Int} {added : Bool} {o : Output}
      (hpc : s.pc = .handle .bindOut data evs) (h : s.out.bind fd added = (o, true)) :
      Step E s (.bind fd added) { s with out := o, pc := .handle .bindErr data evs }
  | bindOutFail {data : Bytes} {evs : List Int} {fd : Int} {added : Bool} {o : Output}
      (hpc : s.pc = .handle .bindOut data evs) (h : s.out.bind fd added = (o, false)) :
      Step E s (.bind fd added) { s with out := o }.raise
  | bindErr {data : Bytes} {evs : List Int} {fd : Int} {added : Bool} {o : Output}
      (hpc : s.pc = .handle .bindErr data evs) (h : s.err.bind fd added = (o, true)) :
      Step E s (.bind fd added) { s with err := o, pc := .handle .timer data evs }
  | bindErrFail {data : Bytes} {evs : List Int} {fd : Int} {added : Bool} {o : Output}
      (hpc : s.pc = .handle .bindErr data evs) (h : s.err.bind fd added = (o, false)) :
      Step E s (.bind fd added) { s with err := o }.raise
  | timerNone {data : Bytes} {evs : List Int} (hpc : s.pc = .handle .timer data evs)
      (h : s.request.timeout < 0) : Step E s .tau (s.goto (.handle .reply data evs))
  | timerCreate {data : Bytes} {evs : List Int} {fd : Int} (hpc : s.pc = .handle .timer data evs)
      (h : ¬ s.request.timeout < 0) (hfd : fd ≠ -1) :
      Step E s (.timerfdCreate fd) { s with timerfd := fd, pc := .handle .settime data evs }
  | timerCreateFail {data : Bytes} {evs : List Int} (hpc : s.pc = .handle .timer data evs)
      (h : ¬ s.request.timeout < 0) :
      Step E s (.timerfdCreate (-1)) { s with timerfd := -1 }.raise
  | settime {data : Bytes} {evs : List Int} (hpc : s.pc = .handle .settime data evs) :
      Step E s (.timerfdSettime s.request.timeoutSeconds true)
        (s.goto (.handle .timerAdd data evs))
  | timerAdd {data : Bytes} {evs : List Int} (hpc : s.pc = .handle .timerAdd data evs) :
      Step E s (.epollAdd s.timerfd true) (s.goto (.handle .reply data evs))
  | replyBackend {data : Bytes} {evs : List Int} (hpc : s.pc = .handle .reply data evs)
      (hb : s.request.backend = true) :
      Step E s .tau (s.goto (.send startedMessage (.started evs)))
  | replyForeground {data : Bytes} {evs : List Int} (hpc : s.pc = .handle .reply data evs)
      (hb : s.request.backend = false) : Step E s .tau (s.goto (.dispatch evs))
  -- `send_message`
  | sent {m : Message} {k : SendRet} {data : Bytes} (hpc : s.pc = .send m k)
      (hdata : E.serialize m = some data) (hne : data ≠ []) :
      Step E s (.write data (.wrote data.length))
        ({ s with resultSendback := s.resultSendback || m.isResult }.goto k.pc)
  | sigpipe {m : Message} {k : SendRet} {data : Bytes} (hpc : s.pc = .send m k) :
      Step E s (.write data .sigpipe) (s.goto (.gone .sigpipe))
  -- `manager_destroy`
  | destroyRunning {how : Exit} (hpc : s.pc = .destroy .entry how)
      (hrun : s.childStatus = .procRunning) : Step E s .tau (s.goto (.destroy .kill how))
  | destroyIdle {how : Exit} (hpc : s.pc = .destroy .entry how)
      (hrun : s.childStatus ≠ .procRunning) : Step E s .tau (s.goto (.destroy .close how))
  | destroyKill {how : Exit} (hpc : s.pc = .destroy .kill how) :
      Step E s (.kill s.clonepid) (s.goto (.destroy .sleep how))
  | destroySleep {how : Exit} (hpc : s.pc = .destroy .sleep how) :
      Step E s .sleep (s.goto (.waitChild (.destroy how)))
  | destroyClose {how : Exit} (hpc : s.pc = .destroy .close how) :
      Step E s .tau { s with connection := -1, epollfd := -1, timerfd := -1, pc := .gone how }

/-! ### The list is complete -/

variable {E : Env} {s s' : Manager} {l : Label}

theorem waitChild_cases {k : WaitRet} (hpc : s.pc = .waitChild k)
    (h : s.waitChild k l = some s') : Step E s l s' := by
  unfold waitChild at h
  split at h
  · cases h; exact .waitNone hpc
  · split at h
    · next hne => cases h; exact .waitOther hpc hne
    · next heq => cases h; rw [← not_not.mp heq]; exact .reap hpc
  · cases h

theorem argsRead_cases {k : WaitRet} (hpc : s.pc = .argsRead k)
    (h : s.argsRead k l = some s') : Step E s l s' := by
  unfold argsRead at h
  split at h
  · next dies =>
    cases dies <;> cases h
    · exact .argsSurvive hpc
    · exact .argsDie hpc
  · cases h

theorem clearClonepid_cases {pt : ClearPoint} {pid : Int} {k : WaitRet}
    (hpc : s.pc = .clear pt pid k) (h : s.clearClonepid pid k pt l = some s') :
    Step E s l s' := by
  unfold clearClonepid at h
  split at h
  · cases h; exact .clearLock hpc
  · split at h
    · next heq => cases h; subst heq; exact .clearUnlink hpc
    · cases h
  · cases h; exact .clearUnlock hpc
  · split at h
    · next heq => cases h; subst heq; exact .clearRmdir hpc
    · cases h
  · cases h

theorem stopChild_cases {k : StopRet} (hpc : s.pc = .stopChild k)
    (h : s.stopChild k l = some s') : Step E s l s' := by
  unfold stopChild at h
  split at h
  · split at h
    · cases h
    · next hrun => cases h; exact .stopIdle hpc hrun
  · split at h
    · next hrun => cases h; obtain ⟨hrun, rfl⟩ := hrun; exact .stopKill hpc hrun
    · cases h
  · cases h

theorem managerDestroy_cases {pt : DestroyPoint} {how : Exit} (hpc : s.pc = .destroy pt how)
    (h : s.managerDestroy how pt l = some s') : Step E s l s' := by
  unfold managerDestroy at h
  split at h
  · by_cases hrun : s.childStatus = .procRunning
    · rw [if_pos hrun] at h; cases h; exact .destroyRunning hpc hrun
    · rw [if_neg hrun] at h; cases h; exact .destroyIdle hpc hrun
  · split at h
    · next heq => cases h; subst heq; exact .destroyKill hpc
    · cases h
  · cases h; exact .destroySleep hpc
  · cases h; exact .destroyClose hpc
  · cases h

theorem sendMessage_cases {m : Message} {k : SendRet} (hpc : s.pc = .send m k)
    (h : sendMessage E s m k l = some s') : Step E s l s' := by
  unfold sendMessage at h
  split at h
  · split at h
    · cases h; exact .throws (by rw [hpc]; rfl)
    · cases h
  · next data r =>
    split at h
    · next hdata =>
      cases r with
      | wrote n =>
        simp only at h
        split at h
        · next hn => cases h; subst hn; exact .sent hpc hdata.1 hdata.2
        · next hn => cases h; exact .throws (by rw [hpc]; exact decide_eq_true hn)
      | failed => cases h; exact .throws (by rw [hpc]; rfl)
      | sigpipe => cases h; exact .sigpipe hpc
    · cases h
  · cases h

theorem envRound_cases {added : ℕ} (hpc : s.pc = .spinning added)
    (h : s.envRound added l = some s') : Step E s l s' := by
  unfold envRound at h
  split at h
  · cases h; exact .envRound hpc
  · cases h

theorem recvMessage_cases {data : Bytes} {evs : List Int} (hpc : s.pc = .recv data evs)
    (h : recvMessage E s data evs l = some s') : Step E s l s' := by
  unfold recvMessage at h
  split at h
  · cases h; exact .readChunk _ hpc
  · split at h
    · next hd => cases h; subst hd; exact .readNothing hpc
    · next hd =>
      split at h
      · next hm => cases h; exact .received hpc hd hm
      · cases h; exact .throws (by rw [hpc]; rfl)
  · cases h

theorem disconnect_cases {evs : List Int} (hpc : s.pc = .disconnect evs)
    (h : s.disconnect evs l = some s') : Step E s l s' := by
  unfold Manager.disconnect at h
  split at h
  · split at h
    · next heq =>
      subst heq
      simp only at h
      by_cases hb : s.request.backend = false ∧ s.resultSendback = false
      · rw [if_pos (by simp [hb.1, hb.2])] at h
        cases h; exact .disconnectStop hpc hb.1 hb.2
      · have hor : s.request.backend = true ∨ s.resultSendback = true := by
          cases hbe : s.request.backend <;> cases hre : s.resultSendback <;> simp_all
        rw [if_neg (by rcases hor with hor | hor <;> simp [hor])] at h
        cases h; exact .disconnect hpc hor
    · cases h
  · cases h

theorem listBranch_cases {pt : ListPoint} {acc : List Runproc} {evs : List Int}
    (hpc : s.pc = .list pt acc evs) (h : listBranch E s acc evs pt l = some s') :
    Step E s l s' := by
  unfold listBranch at h
  split at h
  · cases h; exact .listLock hpc
  · cases h; exact .listEntry _ hpc
  · cases h; exact .listDone hpc
  · cases h; exact .listError hpc
  · split at h
    · next heq =>
      subst heq
      split at h
      · cases h; exact .listReadFail hpc
      · split at h
        · cases h; exact .listReadFail hpc
        · next hm => cases h; exact .listRead hpc hm
    · cases h
  · cases h; exact .listUnlock hpc
  · cases h; exact .unlockThrow (by rw [hpc]; rfl)
  · cases h

theorem stopBranch_cases {pt : StopPoint} {procs : List Runproc} {evs : List Int}
    (hpc : s.pc = .stop pt procs evs) (h : s.stopBranch procs evs pt l = some s') :
    Step E s l s' := by
  unfold stopBranch at h
  split at h
  · split at h
    · cases h; exact .stopEnd hpc
    · cases h; exact .stopNext hpc
  · cases h; exact .stopLock hpc
  · split at h
    · next hpid =>
      split at h
      · cases h; exact .stopCheckFail hpc hpid
      · cases h; exact .stopFound hpc hpid
      · cases h; exact .stopMissing hpc hpid
    · cases h
  · split at h
    · next hpid => cases h; exact .stopSignal hpc hpid
    · cases h
  · cases h; exact .stopUnlock hpc
  · cases h; exact .unlockThrow (by rw [hpc]; rfl)
  · cases h

/-- `writeLeaf` either goes on or throws. -/
theorem writeLeaf_cases {file : CgroupFile} {v : String} {next : Pc}
    (h : s.writeLeaf file v next l = some s') :
    (∃ r : FileWrite, r.returned = true ∧ l = .writeCgroup s.clonepid file v r ∧ s' = s.goto next) ∨
      (∃ kept, l = .writeCgroup s.clonepid file v (.failed kept) ∧ s' = s.raise) := by
  unfold writeLeaf at h
  split at h
  · next pid f val r =>
    split at h
    · next heq =>
      obtain ⟨rfl, rfl, rfl⟩ := heq
      cases r with
      | complete => cases h; exact Or.inl ⟨_, rfl, rfl, rfl⟩
      | silent kept => cases h; exact Or.inl ⟨_, rfl, rfl, rfl⟩
      | failed kept => cases h; exact Or.inr ⟨kept, rfl, rfl⟩
    · cases h
  · cases h

theorem handleRequest_cases {pt : HandlePoint} {data : Bytes} {evs : List Int}
    (hpc : s.pc = .handle pt data evs) (h : s.handleRequest data evs pt l = some s') :
    Step E s l s' := by
  have hleaf : ∀ {file v pc},
      (∀ kept, s.pc.throws (.writeCgroup s.clonepid file v (.failed kept)) = true) →
      s.writeLeaf file v pc l = some s' →
      (∀ r : FileWrite, r.returned = true → l = .writeCgroup s.clonepid file v r →
        Step E s l (s.goto pc)) → Step E s l s' := by
    intro file v pc hthrow hw hstep
    rcases writeLeaf_cases hw with ⟨r, hr, hl, rfl⟩ | ⟨kept, rfl, rfl⟩
    · exact hstep r hr hl
    · exact .throws (hthrow kept)
  unfold handleRequest at h
  split at h
  · -- entry
    split at h
    · next hc => cases h; exact .handleReject hpc hc
    · next hc => cases h; exact .handleAccept hpc (Int.not_lt.mp hc)
  · cases h; exact .throws (by rw [hpc]; rfl)
  · -- find
    split at h
    · next hf => cases h; exact .findMissing hpc (by rw [hf])
    · next hf => cases h; exact .findFound hpc hf
  · -- loadOut
    split at h
    · next ho => cases h; exact .loadOut hpc ho
    · next ho => cases h; exact .loadOutFail hpc ho
  · -- loadErr
    split at h
    · next ho => cases h; exact .loadErr hpc ho
    · next ho => cases h; exact .loadErrFail hpc ho
  · -- clone
    simp only at h
    split at h
    · next heq => cases h; subst heq; exact .cloneFail hpc
    · next hne => cases h; exact .clone hpc hne
  · -- leaf
    split at h
    · next ok heq =>
      subst heq
      cases ok <;> cases h
      · exact .throws (by rw [hpc]; rfl)
      · exact .leaf hpc
    · cases h
  · -- memlimit
    split at h
    · next hv =>
      exact hleaf (fun _ => by rw [hpc]; rfl) h fun r hr hl => hl ▸ .memlimit hpc hv hr
    · next hv =>
      split at h
      · split at h
        · cases h; exact .memlimitSkip hpc hv
        · cases h
      · split at h <;> simp_all
  · -- memswExists
    split at h
    · next heq =>
      subst heq
      split at h
      · cases h; exact .throws (by rw [hpc]; rfl)
      · cases h; exact .memswFound hpc
      · cases h; exact .memswMissing hpc
    · cases h
  · -- memswlimit
    split at h
    · next hv =>
      exact hleaf (fun _ => by rw [hpc]; rfl) h fun r hr hl => hl ▸ .memswlimit hpc hv hr
    · next hv =>
      split at h
      · split at h
        · cases h; exact .memswlimitSkip hpc hv
        · cases h
      · split at h <;> simp_all
  · exact hleaf (fun _ => by rw [hpc]; rfl) h fun r hr hl => hl ▸ .procs hpc hr
  · exact hleaf (fun _ => by rw [hpc]; rfl) h fun r hr hl => hl ▸ .notify hpc hr
  · cases h; exact .handleLock hpc
  · -- create
    split at h
    · next ok heq =>
      subst heq
      cases ok <;> cases h
      · exact .createFail hpc
      · exact .create hpc
    · cases h
  · -- write
    split at h
    · next r heq =>
      obtain ⟨rfl, rfl⟩ := heq
      cases r <;> cases h
      · exact .write hpc rfl
      · exact .write hpc rfl
      · exact .writeFail hpc
    · cases h
  · cases h; exact .handleUnlock hpc
  · cases h; exact .unlockThrow (by rw [hpc]; rfl)
  · -- bindOut
    split at h
    · next ho => cases h; exact .bindOut hpc ho
    · next ho => cases h; exact .bindOutFail hpc ho
  · -- bindErr
    split at h
    · next ho => cases h; exact .bindErr hpc ho
    · next ho => cases h; exact .bindErrFail hpc ho
  · split at h
    · next ht => cases h; exact .timerNone hpc ht
    · cases h
  · -- timer
    next fd =>
    split at h
    · cases h
    · next ht =>
      by_cases hfd : fd = -1
      · simp only [if_pos hfd] at h; cases h; subst hfd; exact .timerCreateFail hpc ht
      · simp only [if_neg hfd] at h; cases h; exact .timerCreate hpc ht hfd
  · -- settime
    split at h
    · next ok heq =>
      subst heq
      cases ok <;> cases h
      · exact .throws (by rw [hpc]; rfl)
      · exact .settime hpc
    · cases h
  · -- timerAdd
    split at h
    · next ok heq =>
      subst heq
      cases ok <;> cases h
      · exact .throws (by rw [hpc]; rfl)
      · exact .timerAdd hpc
    · cases h
  · -- reply
    cases hb : s.request.backend
    · rw [hb] at h; cases h; exact .replyForeground hpc hb
    · rw [hb] at h; cases h; exact .replyBackend hpc hb
  · cases h

theorem epollReturn_cases {r : EpollResult} (hpc : s.pc = .epollWait)
    (h : s.epollReturn r = some s') : Step E s (.epollWait r) s' := by
  unfold epollReturn at h
  split at h
  · cases h; exact .throws (by rw [hpc]; rfl)
  · cases h; exact .epollEintr hpc
  · split at h
    · cases h
    · next ht =>
      split at h
      · next hb =>
        split at h
        · cases h; exact .throws (by rw [hpc]; rfl)
        · next hsyn =>
          cases h
          exact .heartbeat hpc ht (by simpa using hb.1) hb.2 (by simpa using hsyn)
      · next hb =>
        cases h
        refine .epollIdle hpc ht ?_
        by_cases hbe : s.request.backend = true
        · exact Or.inl hbe
        · exact Or.inr (not_not.mp fun hc => hb ⟨by simpa using hbe, hc⟩)
  · cases h; exact .epollReady _ hpc

theorem managerStart_cases (h : s.managerStart s.pc l = some s') : Step E s l s' := by
  unfold managerStart at h
  split at h
  · next fd hpc =>
    by_cases hfd : fd = -1
    · simp only [if_pos hfd] at h; cases h; subst hfd; exact .epollCreateFail hpc
    · simp only [if_neg hfd] at h; cases h; exact .epollCreate hpc hfd
  · next fd ok hpc =>
    split at h
    · next heq =>
      subst heq
      cases ok <;> cases h
      · exact .throws (by rw [hpc]; rfl)
      · exact .epollAdd hpc
    · cases h
  · next hpc => cases h; exact .loopCheck hpc
  · next hpc =>
    cases hstop : s.processStop
    · rw [hstop] at h; cases h; exact .stopCheck hpc hstop
    · rw [hstop] at h; cases h; exact .stopCheckStop hpc hstop
  · next hpc => exact epollReturn_cases hpc h
  · next hpc => cases h; exact .dispatch _ hpc
  · next hpc => cases h; exact .receiveOut _ hpc
  · next hpc => cases h; exact .receiveErr _ hpc
  · next hpc =>
    split at h
    · next heq => cases h; subst heq; exact .timerEvent hpc
    · cases h
  · cases h

/-- **Every step of a manager is one of the named ones.** -/
theorem step_cases (h : step E s l = some s') : Step E s l s' := by
  have hcode : ∀ {l}, codeStep E s l = some s' → Step E s l s' := by
    intro l h
    unfold codeStep at h
    split at h
    · next hpc => exact waitChild_cases hpc h
    · next hpc => exact argsRead_cases hpc h
    · next hpc => exact clearClonepid_cases hpc h
    · next hpc => exact stopChild_cases hpc h
    · next hpc => exact recvMessage_cases hpc h
    · next hpc => exact disconnect_cases hpc h
    · next hpc => exact handleRequest_cases hpc h
    · next hpc => exact listBranch_cases hpc h
    · next hpc => exact stopBranch_cases hpc h
    · next hpc => exact sendMessage_cases hpc h
    · next hpc => exact managerDestroy_cases hpc h
    · next hpc => exact envRound_cases hpc h
    · cases h
    · exact managerStart_cases h
  unfold step at h
  split at h
  · split at h
    · cases h
    · next hpc => cases h; exact .sigterm _ fun how hgone => by simp [hgone] at hpc
  · exact hcode h

/-! ### Where the functions lead

A statement about the program point after a function holds if it holds at every
point the function can lead to. -/

section Points

variable {motive : Pc → Prop}

@[elab_as_elim]
theorem received_pc {data : Bytes} {m : Message} {evs : List Int}
    (hsend : motive (.send m (.reply evs))) (hdispatch : motive (.dispatch evs))
    (hexe : motive (.handle .entry data evs)) (hspin : motive (.spinning 0))
    (hlist : motive (.list .lock [] evs)) (hstop : motive (.stop .next m.runlist evs)) :
    motive (received E s data m evs).pc := by
  unfold received
  split
  · exact hsend
  · exact hdispatch
  · split
    · exact hexe
    · exact hspin
  · exact hlist
  · exact hstop
  · exact hdispatch

@[elab_as_elim]
theorem dispatch_pc {evs : List Int} (hnil : motive (.waitChild .loop))
    (hrecv : ∀ evs, motive (.recv [] evs)) (hreceive : ∀ isErr evs, motive (.receive isErr evs))
    (htimer : ∀ evs, s.timerfd ≠ -1 → motive (.stopChild (.timer evs)))
    (hnext : ∀ evs, motive (.dispatch evs)) :
    motive (s.dispatch evs) := by
  cases evs with
  | nil => exact hnil
  | cons fd evs =>
    simp only [dispatch]
    split_ifs with _ _ _ hfd
    · exact hrecv evs
    · exact hreceive false evs
    · exact hreceive true evs
    · exact htimer evs hfd.1
    · exact hnext evs

@[elab_as_elim]
theorem loopCheck_pc (hdestroy : motive (.destroy .entry .exit0))
    (hresult : s.execOver = true → s.connection ≠ -1 → s.resultSendback = false →
      motive (.send s.resultMessage .result))
    (hgo : (s.execOver = true → s.connection ≠ -1 → s.resultSendback = true) →
      motive .stopCheck) :
    motive s.loopCheck := by
  unfold loopCheck
  split_ifs with hover hc hr hidle
  · exact hdestroy
  · exact hresult hover (fun h => hc (Or.inl h)) (by simpa using hr)
  · exact hgo fun _ _ => by simpa using hr
  · exact hdestroy
  · exact hgo fun h => absurd h hover

@[elab_as_elim]
theorem clearEntry_pc {k : WaitRet} (hclear : motive (.clear .lock s.clonepid k))
    (hwait : motive (.waitChild k)) : motive (s.clearEntry k).pc := by
  unfold clearEntry
  split
  · exact hclear
  · exact hwait

@[elab_as_elim]
theorem reaped_pc {st : WaitStatus} {k : WaitRet} (hargs : motive (.argsRead k))
    (hclear : motive (.clear .lock s.clonepid k)) (hwait : motive (.waitChild k)) :
    motive (s.reaped st k).pc := by
  cases st with
  | signaled sig =>
    simp only [reaped]
    split
    · exact hargs
    · exact clearEntry_pc hclear hwait
  | _ => exact clearEntry_pc hclear hwait

end Points

/-! ### What the functions leave alone -/

theorem received_field {α : Type} (f : Manager → α) {data : Bytes} {m : Message} {evs : List Int}
    (hf : ∀ a r pc, f { s with isSyn := a, request := r, pc := pc } = f s) :
    f (received E s data m evs) = f s := by
  unfold received
  split
  case h_3 =>
    split
    · exact hf s.isSyn _ _
    · exact hf s.isSyn _ _
  case h_2 => exact hf false s.request _
  all_goals exact hf s.isSyn _ _

theorem clearEntry_field {α : Type} (f : Manager → α) {k : WaitRet}
    (hf : ∀ c pc, f { s with clonepid := c, pc := pc } = f s) : f (s.clearEntry k) = f s := by
  unfold clearEntry
  split
  · exact hf 0 _
  · exact hf s.clonepid _

theorem reaped_field {α : Type} (f : Manager → α) {st : WaitStatus} {k : WaitRet}
    (hf : ∀ st r c pc,
      f { s with childStatus := st, response := r, clonepid := c, pc := pc } = f s) :
    f (s.reaped st k) = f s := by
  have hclear : ∀ t : Manager, (∀ c pc, f { t with clonepid := c, pc := pc } = f s) →
      f (t.clearEntry k) = f s := by
    intro t ht
    unfold clearEntry
    split
    · exact ht 0 _
    · exact ht t.clonepid _
  cases st with
  | signaled sig =>
    simp only [reaped]
    split
    · exact hf _ _ s.clonepid _
    · exact hclear _ fun c pc => hf _ _ c pc
  | _ => exact hclear _ fun c pc => hf _ _ c pc

end Manager
end Srun
