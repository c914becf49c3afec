import Srun.Framework.Handles
import Srun.Reuse

/-!
# The descriptors that epoll watches

A manager has `epoll` watch its connection, the read ends of the two pipes and the timer.
They are added in `manager_start`, `Output::bind` and `set_timeout`, and removed where they
are closed: in `recv_message`, `Output::receive` and the timer branch of the loop. The loop
tells an event by comparing its descriptor with the four variables, and passes over an event
that is none of them. The watch is level-triggered: what is passed over comes back at once.

`Watch` puts a manager next to the kernel's view of its descriptors. What a step does to
them is a list of operations on the variables (`Manager.ops`), in the order of the source, so
that the rules of `Handles` apply. The manager keeps `Tended` as long as nothing is written
over a variable that still holds a watched descriptor. `attended_iff` says that this is
exactly when `epoll_wait` reports nothing but events that have a handler.
-/

namespace Srun

/-- The variables of a manager that hold descriptors. -/
inductive Slot
  | connection
  | epollfd
  | timerfd
  | readEnd (s : CaptureStream)
  | writeEnd (s : CaptureStream)
  | redirect (s : CaptureStream)
  deriving DecidableEq

/-- The variables whose descriptors are added to `epollfd`. -/
def Slot.polled : Slot → Bool
  | connection | timerfd | readEnd _ => true
  | _ => false

/-- What a descriptor variable holds; -1 is nothing. -/
def descriptor (fd : Int) : Option Int := if fd = -1 then none else some fd

/-! ### Where a manager stands -/

/-- The variables that may hold a descriptor which has not been added yet. -/
def HandlePoint.unadded : HandlePoint → Slot → Bool
  | entry, _ | find, _ | loadOut, _ | timer, _ | reply, _ => false
  -- the first pipe is there, and the second one may be
  | loadErr, i => i = .readEnd .out
  | bindErr, i => i = .readEnd .err
  | settime, i | timerAdd, i => i = .timerfd
  -- from the second `load` to the first `bind`
  | _, i => i = .readEnd .out || i = .readEnd .err

namespace Pc

/-- The manager does not come back to `epoll_wait`. -/
def lost : Pc → Bool
  | spinning _ => true
  | pc => pc.leaving

def unadded : Pc → Slot → Bool
  | epollCreate | epollAdd => fun i => i = .connection
  | handle pt _ _ => pt.unadded
  | _ => fun _ => false

/-- The events of the batch that are still to be dispatched. -/
def events : Pc → List Int
  | dispatch evs | receive _ evs | timerEvent evs | recv _ evs | disconnect evs => evs
  | handle _ _ evs | list _ _ evs | stop _ _ evs => evs
  | stopChild (.closed evs) | stopChild (.timer evs) => evs
  | send _ (.reply evs) | send _ (.badArgs evs) | send _ (.started evs) => evs
  | _ => []

/-- The variable with whose descriptor the event at hand has been matched. -/
def matched : Pc → Option Slot
  | receive isErr _ => some (.readEnd (if isErr then .err else .out))
  | stopChild (.timer _) | timerEvent _ => some .timerfd
  | recv _ _ | disconnect _ => some .connection
  | _ => none

end Pc

/-- `Output::receive` finds the stream over, and closes it. -/
def Output.ends (o : Output) (reads : List (Chunk × Int)) : Bool :=
  let (total, overlimit) := match o.mode with
    | .msg => (receiveMsg o.str 0 (reads.map Prod.fst)).2
    | .file => (receiveFile [] 0 reads).2
    | _ => (0, false)
  overlimit || total ≤ 0

namespace Manager

def output (s : Manager) : CaptureStream → Output
  | .out => s.out
  | .err => s.err

/-- The value of a descriptor variable. -/
def fd (s : Manager) : Slot → Int
  | .connection => s.connection
  | .epollfd => s.epollfd
  | .timerfd => s.timerfd
  | .readEnd st => (s.output st).pipefd0
  | .writeEnd st => (s.output st).pipefd1
  | .redirect st => (s.output st).redirectFd

def slot (s : Manager) (i : Slot) : Option Int := descriptor (s.fd i)

/-- The stream that `load`, `bind` or `receive` is called for. -/
def stream (s : Manager) : CaptureStream :=
  match s.pc with
  | .handle .loadErr _ _ | .handle .bindErr _ _ | .receive true _ => .err
  | _ => .out

/-- `Output::load` calls `pipe`: the file of a FILE stream has been found. -/
def opensPipe (s : Manager) (found : Bool) : Bool :=
  Output.loadsPipe (s.stream.mode s.request) s.request.backend &&
    (s.stream.mode s.request ≠ .file || found)

/-- `Output::bind` gets as far as `epoll_ctl`. -/
def bindOps (o : Output) (st : CaptureStream) (fd : Int) (added : Bool) :
    List (Handles.Op Slot Int) :=
  if o.pipefd0 = -1 ∨ o.mode = .file ∧ fd = -1 then []
  else
    -- the write end is closed whether or not `epoll_ctl` succeeds
    (if o.mode = .file then [.take (.redirect st) fd] else []) ++ [.close (.writeEnd st)] ++
      if added then [.watch (.readEnd st)] else []

/-- What a step does to the descriptors. -/
def ops (s : Manager) : Label → List (Handles.Op Slot Int)
  | .epollCreate1 fd => if fd = -1 then [] else [.take .epollfd fd]
  | .epollAdd _ ok =>
    if ok then [.watch (if s.pc = .epollAdd then .connection else .timerfd)] else []
  | .epollDel _ =>
    -- both callers close the descriptor right after
    if s.pc matches .timerEvent _ then [.unwatch .timerfd, .close .timerfd]
    else [.unwatch .connection, .close .connection]
  | .load found (some (r, wr)) =>
    if s.opensPipe found then [.take (.readEnd s.stream) r, .take (.writeEnd s.stream) wr] else []
  | .bind fd added => bindOps (s.output s.stream) s.stream fd added
  | .receive reads =>
    if (s.output s.stream).ends reads then
      [.unwatch (.readEnd s.stream), .close (.readEnd s.stream), .close (.redirect s.stream)]
    else []
  | .timerfdCreate fd => if fd = -1 then [] else [.take .timerfd fd]
  | .tau =>
    -- `manager_destroy`; the streams are closed with the process
    if s.pc matches .destroy .close _ then [.close .connection, .close .epollfd, .close .timerfd]
    else []
  | _ => []

/-- The events that have been reported and neither handled nor removed, after a step. -/
def unhandledAfter (s : Manager) (unhandled : List Int) : Label → List Int
  | .epollWait (.ready fds) => fds
  | .epollWait _ => []
  | .epollDel fd => unhandled.erase fd
  | .receive _ => unhandled.erase (s.output s.stream).pipefd0
  -- all there was has been read
  | .read none => if s.pc matches .recv (_ :: _) _ then unhandled.erase s.connection else unhandled
  | _ => unhandled

/-- Nothing is written over a variable that is watched: where the step opens a pipe or makes
a timer, the variable that gets it holds no descriptor. -/
def vacant (s : Manager) (l : Label) : Bool :=
  (s.ops l).all fun
    | .take i _ => !i.polled || s.slot i = none
    | _ => true

/-- The events of the batch, from the one at hand on. -/
def batch (s : Manager) : List Int := (s.pc.matched.map s.fd).toList ++ s.pc.events

end Manager

/-- A manager process, and what the kernel knows of its descriptors. -/
structure Watch where
  proc : Proc
  opened : Finset Int
  interest : Finset Int := ∅
  /-- Events that have been reported since the last `epoll_wait`, and are still to be handled. -/
  unhandled : List Int := []

namespace Watch

/-- The daemon's fork for the connection `fd`; other descriptors may be open. -/
def start (fd : ℕ) (inherited : Finset ℕ) : Watch where
  proc := Proc.start fd
  opened := (insert fd inherited).map Nat.castEmbedding

/-- The variables and the kernel. -/
def handles (w : Watch) : Handles Slot Int := ⟨w.proc.mgr.slot, w.opened, w.interest⟩

/-- The results that the kernel can give: descriptors are not negative, and `epoll_wait`
reports up to `MAX_EVENTS` of those that are watched, each once. -/
def gives (w : Watch) : Label → Bool
  | .epollCreate1 fd | .timerfdCreate fd | .bind fd _ => -1 ≤ fd
  | .load _ (some (r, wr)) => 0 ≤ r && 0 ≤ wr
  | .epollWait (.ready fds) =>
    fds ≠ [] && fds.length ≤ 20 && fds.Nodup && fds.all (· ∈ w.interest)
  | _ => true

/-- One step. The operations on the descriptors are possible ones. -/
def step (E : Env) (w : Watch) : Event → Option Watch
  | .mgr l =>
    if w.gives l then
      (w.proc.step E (.mgr l)).bind fun p =>
        (Machine.exec Handles.step w.handles (w.proc.mgr.ops l)).map fun h =>
          { proc := p, opened := h.opened, interest := h.interest,
            unhandled := w.proc.mgr.unhandledAfter w.unhandled l }
    else none
  | .exit pid st => (w.proc.step E (.exit pid st)).map fun p => { w with proc := p }

/-- **Every watched descriptor has an owner.** What is watched is exactly what is open and
held by one of the four variables, which hold different descriptors; the loop finds a handler
for each of them; and nothing that was reported before is left. -/
structure Attended (w : Watch) : Prop where
  exactly : ∀ fd, fd ∈ w.interest ↔
    fd ∈ w.opened ∧ ∃ i : Slot, i.polled = true ∧ w.proc.mgr.slot i = some fd
  distinct : ∀ i j : Slot, i.polled = true → j.polled = true →
    w.proc.mgr.slot i ≠ none → w.proc.mgr.slot i = w.proc.mgr.slot j → i = j
  dispatched : ∀ fd ∈ w.interest, ∀ evs, w.proc.mgr.dispatch (fd :: evs) ≠ .dispatch evs
  handled : w.unhandled = []

/-- A step writes over no variable that is watched. -/
def VacantStep (w : Watch) : Event → Prop
  | .mgr l => w.proc.mgr.vacant l = true
  | .exit _ _ => True

instance (w : Watch) (ev : Event) : Decidable (VacantStep w ev) :=
  match ev with
  | .mgr l => inferInstanceAs (Decidable (w.proc.mgr.vacant l = true))
  | .exit _ _ => isTrue trivial

end Watch

/-! ### What the functions of `output.cpp` do to the descriptors -/

namespace Output

variable {o o' : Output} {reads : List (Chunk × Int)}

theorem receive_eq (o : Output) (reads : List (Chunk × Int)) :
    ∃ str, (o.receive reads).1 =
      if o.ends reads then { o with str := str, «over» := true, pipefd0 := -1, redirectFd := -1 }
      else { o with str := str } := by
  cases hmode : o.mode
  -- in the other modes the content stays
  case msg =>
    refine ⟨(receiveMsg o.str 0 (reads.map Prod.fst)).1, ?_⟩
    simp only [receive, ends, hmode]
    split <;> rfl
  all_goals
    refine ⟨o.str, ?_⟩
    simp only [receive, ends, hmode]
    split <;> rfl

theorem load_true {mode : OutMode} {path : String} {backend found : Bool}
    {pipe : Option (Int × Int)} (h : o.load mode path backend found pipe = (o', true)) :
    (∃ r w, pipe = some (r, w) ∧ (loadsPipe mode backend && (mode ≠ .file || found)) = true ∧
        o' = { o with mode := mode, redirectTo := path, pipefd0 := r, pipefd1 := w }) ∨
      (loadsPipe mode backend = false ∧ o' = { o with mode := mode, redirectTo := path }) := by
  have hpipe : ∀ {o₁ : Output}, o₁.openPipe pipe = (o', true) →
      ∃ r w, pipe = some (r, w) ∧ o' = { o₁ with pipefd0 := r, pipefd1 := w } := by
    intro o₁ h
    cases pipe with
    | none => cases (Prod.mk.inj h).2
    | some p => exact ⟨p.1, p.2, rfl, (Prod.mk.inj h).1.symm⟩
  cases mode with
  | msg =>
    -- the output of a backend command is not captured
    cases backend with
    | true => exact Or.inr ⟨rfl, (Prod.mk.inj h).1.symm⟩
    | false =>
      obtain ⟨r, w, hp, ho⟩ := hpipe h
      exact Or.inl ⟨r, w, hp, rfl, ho⟩
  | file =>
    cases found with
    | true =>
      obtain ⟨r, w, hp, ho⟩ := hpipe h
      exact Or.inl ⟨r, w, hp, rfl, ho⟩
    | false => cases (Prod.mk.inj h).2
  | ign => exact Or.inr ⟨rfl, (Prod.mk.inj h).1.symm⟩
  | other n => exact Or.inr ⟨rfl, (Prod.mk.inj h).1.symm⟩

theorem bind_true {fd : Int} {added : Bool} (h : o.bind fd added = (o', true)) :
    (o.pipefd0 = -1 ∧ o' = { o with «over» := true }) ∨
      o.pipefd0 ≠ -1 ∧ added = true ∧
        ((o.mode = .file ∧ fd ≠ -1 ∧ o' = { o with redirectFd := fd, pipefd1 := -1 }) ∨
          (o.mode ≠ .file ∧ o' = { o with pipefd1 := -1 })) := by
  unfold bind at h
  by_cases hpipe : o.pipefd0 = -1
  · rw [if_neg (not_not.mpr hpipe)] at h
    exact Or.inl ⟨hpipe, (Prod.mk.inj h).1.symm⟩
  · rw [if_pos hpipe] at h
    refine Or.inr ⟨hpipe, ?_⟩
    by_cases hmode : o.mode = .file
    · by_cases hfd : fd = -1
      · rw [if_pos ⟨by simp [hmode], hfd⟩] at h
        cases (Prod.mk.inj h).2
      · simp only [hmode, hfd, if_true, and_false, if_false] at h
        obtain ⟨rfl, hadded⟩ := Prod.mk.inj h
        exact ⟨hadded, Or.inl ⟨hmode, hfd, by rw [hmode]⟩⟩
    · simp only [hmode, if_false, false_and] at h
      exact ⟨(Prod.mk.inj h).2, Or.inr ⟨hmode, (Prod.mk.inj h).1.symm⟩⟩

end Output

/-! ### The variables -/

theorem descriptor_eq_some {fd d : Int} : descriptor fd = some d ↔ fd = d ∧ fd ≠ -1 := by
  unfold descriptor
  split
  · next h => simp [h]
  · next h => simp [h]

theorem descriptor_of_ne {fd : Int} (h : fd ≠ -1) : descriptor fd = some fd := if_neg h

/-- The variables, with the descriptors of the stream `st` as `o` has them. -/
def Output.slots (o : Output) (st : CaptureStream) (slot : Slot → Option Int) (j : Slot) :
    Option Int :=
  if j = .readEnd st then descriptor o.pipefd0
  else if j = .writeEnd st then descriptor o.pipefd1
  else if j = .redirect st then descriptor o.redirectFd
  else slot j

section Slots

variable {o : Output} {st : CaptureStream} {slot : Slot → Option Int} {j : Slot}

@[simp] theorem Output.slots_readEnd : o.slots st slot (.readEnd st) = descriptor o.pipefd0 :=
  if_pos rfl

@[simp] theorem Output.slots_writeEnd : o.slots st slot (.writeEnd st) = descriptor o.pipefd1 := by
  simp [slots]

@[simp] theorem Output.slots_redirect :
    o.slots st slot (.redirect st) = descriptor o.redirectFd := by
  simp [slots]

theorem Output.slots_eq (h0 : j = .readEnd st → descriptor o.pipefd0 = slot j)
    (h1 : j = .writeEnd st → descriptor o.pipefd1 = slot j)
    (h2 : j = .redirect st → descriptor o.redirectFd = slot j) : o.slots st slot j = slot j := by
  unfold slots
  split_ifs with hr hw hd
  · exact h0 hr
  · exact h1 hw
  · exact h2 hd
  · rfl

end Slots

namespace Manager

variable {E : Env} {s s' : Manager} {l : Label} {h h' : Handles Slot Int} {u : List Int}

/-- A manager that is lost stays lost. -/
theorem lost_step (hm : Step E s l s') (hlost : s.pc.lost = true) : s'.pc.lost = true := by
  -- `wait_child` returns to the loop or to `manager_destroy`, as its caller was
  cases hm with
  | sigterm => exact hlost
  | throws | unlockThrow | epollCreateFail => rfl
  | @waitNone k hpc =>
    rw [hpc] at hlost
    cases k with
    | loop => cases hlost
    | destroy how => rfl
  | waitOther => exact hlost
  | @reap k st hpc =>
    rw [hpc] at hlost
    cases k with
    | loop => cases hlost
    | destroy how => exact reaped_pc rfl rfl rfl
  | @argsSurvive k hpc =>
    rw [hpc] at hlost
    cases k with
    | loop => cases hlost
    | destroy how => exact clearEntry_pc rfl rfl
  | @clearLock _ k hpc | @clearUnlink _ k hpc | @clearUnlock _ k hpc | @clearRmdir _ k hpc =>
    rw [hpc] at hlost
    cases k with
    | loop => cases hlost
    | destroy how => rfl
  | argsDie | sigpipe => rfl
  | loadOutFail | loadErrFail | cloneFail | bindOutFail | bindErrFail | timerCreateFail => rfl
  | destroyRunning | destroyIdle | destroyKill | destroySleep | destroyClose | envRound => rfl
  | _ =>
    rw [‹s.pc = _›] at hlost
    cases hlost

/-- What a step does to the descriptors, their variables and the batch. -/
inductive Turn (s : Manager) (l : Label) (s' : Manager) : Prop
  | lost (hlost : s'.pc.lost = true)
  /-- Nothing. -/
  | quiet (hops : s.ops l = []) (hslot : s'.slot = s.slot)
      (hmatched : s'.pc.matched = s.pc.matched) (hevents : s'.pc.events = s.pc.events)
      (hadded : ∀ i, s'.pc.unadded i = false → s.pc.unadded i = false)
      (hu : ∀ u, s.unhandledAfter u l = u)
  /-- `epoll_wait` has returned. -/
  | reported {fds : List Int} (hops : s.ops l = []) (hslot : s'.slot = s.slot)
      (hmatched' : s'.pc.matched = none) (hevents : s'.pc.events = fds)
      (hadded : ∀ j, s.pc.unadded j = false) (hu : ∀ u, s.unhandledAfter u l = fds)
      (hl : fds = [] ∨ l = .epollWait (.ready fds))
  | dispatched {evs : List Int} (hl : l = .tau) (hpc : s.pc = .dispatch evs)
      (hs' : s' = s.goto (s.dispatch evs))
  /-- An event has been handled, and its descriptor stays. -/
  | consumed {i : Slot} (hops : s.ops l = []) (hslot : s'.slot = s.slot)
      (hmatched : s.pc.matched = some i) (hmatched' : s'.pc.matched = none)
      (hevents : s'.pc.events = s.pc.events) (hadded : ∀ j, s.pc.unadded j = false)
      (hu : ∀ u, s.unhandledAfter u l = u.erase (s.fd i))
  /-- An event has been handled, and its descriptor goes. -/
  | released {i : Slot} {rest : List (Handles.Op Slot Int)}
      (hops : s.ops l = .unwatch i :: .close i :: rest)
      (hrest : rest = [] ∧ (∀ j, j ≠ i → s'.slot j = s.slot j) ∨
        ∃ st, rest = [.close (.redirect st)] ∧ s'.slot (.redirect st) = none ∧ i = .readEnd st ∧
          ∀ j, j ≠ i → j ≠ .redirect st → s'.slot j = s.slot j)
      (hslot : s'.slot i = none) (hmatched : s.pc.matched = some i)
      (hmatched' : s'.pc.matched = none) (hevents : s'.pc.events = s.pc.events)
      (hadded : ∀ j, s.pc.unadded j = false) (hu : ∀ u, s.unhandledAfter u l = u.erase (s.fd i))
  /-- A variable gets a descriptor, which is not watched yet. -/
  | took {i : Slot} {d : Int} (hops : s.ops l = [.take i d]) (hslot : s'.slot i = some d)
      (hother : ∀ j, j ≠ i → s'.slot j = s.slot j) (hmatched : s.pc.matched = none)
      (hmatched' : s'.pc.matched = none) (hevents : s'.pc.events = s.pc.events)
      (hold : i.polled = true → s.pc.unadded i = false)
      (hadded : ∀ j, j.polled = true → s'.pc.unadded j = false →
        s.pc.unadded j = false ∧ j ≠ i) (hu : ∀ u, s.unhandledAfter u l = u)
  /-- A pipe. -/
  | piped {st : CaptureStream} {r w : Int}
      (hops : s.ops l = [.take (.readEnd st) r, .take (.writeEnd st) w])
      (hread : s'.slot (.readEnd st) = some r) (hwrite : s'.slot (.writeEnd st) = some w)
      (hother : ∀ j, j ≠ .readEnd st → j ≠ .writeEnd st → s'.slot j = s.slot j)
      (hmatched : s.pc.matched = none) (hmatched' : s'.pc.matched = none)
      (hevents : s'.pc.events = s.pc.events) (hold : s.pc.unadded (.readEnd st) = false)
      (hadded : ∀ j, s'.pc.unadded j = false → s.pc.unadded j = false ∧ j ≠ .readEnd st)
      (hu : ∀ u, s.unhandledAfter u l = u)
  /-- A descriptor is watched from now on. -/
  | added {i : Slot} (hops : s.ops l = [.watch i]) (hslot : s'.slot = s.slot)
      (hpolled : i.polled = true) (hmatched : s'.pc.matched = s.pc.matched)
      (hevents : s'.pc.events = s.pc.events)
      (hadded : ∀ j, s'.pc.unadded j = false → s.pc.unadded j = false ∨ j = i)
      (hu : ∀ u, s.unhandledAfter u l = u)
  /-- `Output::bind`. -/
  | bound {st : CaptureStream} {first : List (Handles.Op Slot Int)}
      (hops : s.ops l = first ++ [.close (.writeEnd st), .watch (.readEnd st)])
      (hfirst : first = [] ∧ (∀ j, j ≠ .writeEnd st → s'.slot j = s.slot j) ∨
        ∃ d, first = [.take (.redirect st) d] ∧ s'.slot (.redirect st) = some d ∧
          ∀ j, j ≠ .writeEnd st → j ≠ .redirect st → s'.slot j = s.slot j)
      (hwrite : s'.slot (.writeEnd st) = none) (hmatched : s.pc.matched = none)
      (hmatched' : s'.pc.matched = none) (hevents : s'.pc.events = s.pc.events)
      (hadded : ∀ j, s'.pc.unadded j = false → s.pc.unadded j = false ∨ j = .readEnd st)
      (hu : ∀ u, s.unhandledAfter u l = u)
  /-- `Output::bind` without a pipe. -/
  | unbound {st : CaptureStream} (hops : s.ops l = []) (hslot : s'.slot = s.slot)
      (hnone : s.slot (.readEnd st) = none) (hmatched : s'.pc.matched = s.pc.matched)
      (hevents : s'.pc.events = s.pc.events)
      (hadded : ∀ j, s'.pc.unadded j = false → s.pc.unadded j = false ∨ j = .readEnd st)
      (hu : ∀ u, s.unhandledAfter u l = u)

/-- The output of one stream is written. -/
theorem slot_out {o : Output} {pc : Pc} :
    ({ s with out := o, pc := pc } : Manager).slot = o.slots .out s.slot := by
  funext j
  rcases j with _ | _ | _ | st | st | st <;> try rfl
  all_goals cases st <;> rfl

theorem slot_err {o : Output} {pc : Pc} :
    ({ s with err := o, pc := pc } : Manager).slot = o.slots .err s.slot := by
  funext j
  rcases j with _ | _ | _ | st | st | st <;> try rfl
  all_goals cases st <;> rfl

/-- The descriptors of the stream stay. -/
theorem slots_self {o : Output} {st : CaptureStream} (h0 : o.pipefd0 = (s.output st).pipefd0)
    (h1 : o.pipefd1 = (s.output st).pipefd1) (h2 : o.redirectFd = (s.output st).redirectFd) :
    o.slots st s.slot = s.slot := by
  funext j
  refine Output.slots_eq (fun h => ?_) (fun h => ?_) fun h => ?_
  · rw [h, h0]
    rfl
  · rw [h, h1]
    rfl
  · rw [h, h2]
    rfl

/-- `Output::load`, for either stream. -/
theorem load_turn {o : Output} (st : CaptureStream) {found : Bool} {pipe : Option (Int × Int)}
    {path : String} (hst : s.stream = st)
    (ho : (s.output st).load (st.mode s.request) path s.request.backend found pipe = (o, true))
    (hs' : s'.slot = o.slots st s.slot)
    (hpipe : ∀ r w, pipe = some (r, w) → r ≠ -1 ∧ w ≠ -1) (hmatched : s.pc.matched = none)
    (hmatched' : s'.pc.matched = none) (hevents : s'.pc.events = s.pc.events)
    (hold : s.pc.unadded (.readEnd st) = false)
    (hadded : ∀ j, s'.pc.unadded j = false → s.pc.unadded j = false ∧ j ≠ .readEnd st) :
    Turn s (.load found pipe) s' := by
  rcases Output.load_true ho with ⟨r, w, rfl, hopens, rfl⟩ | ⟨hno, rfl⟩
  · have hops : s.ops (.load found (some (r, w))) =
        [.take (.readEnd st) r, .take (.writeEnd st) w] := by
      rw [ops, opensPipe, hst, if_pos hopens]
    obtain ⟨hr, hw⟩ := hpipe r w rfl
    refine .piped hops ?_ ?_ (fun j hj hj' => ?_) hmatched hmatched' hevents hold hadded
      fun _ => rfl
    · rw [hs', Output.slots_readEnd, descriptor_of_ne hr]
    · rw [hs', Output.slots_writeEnd, descriptor_of_ne hw]
    · rw [hs']
      exact Output.slots_eq (fun h => absurd h hj) (fun h => absurd h hj') fun h => by rw [h]; rfl
  · have hops : s.ops (.load found pipe) = [] := by
      cases pipe with
      | none => rfl
      | some p => simp [ops, opensPipe, hst, hno]
    exact .quiet hops (hs'.trans (slots_self rfl rfl rfl)) (hmatched'.trans hmatched.symm)
      hevents (fun j hj => (hadded j hj).1) fun _ => rfl

/-- `Output::bind`, for either stream. -/
theorem bind_turn {o : Output} (st : CaptureStream) {fd : Int} {added : Bool}
    (hst : s.stream = st) (ho : (s.output st).bind fd added = (o, true))
    (hs' : s'.slot = o.slots st s.slot) (hmatched : s.pc.matched = none)
    (hmatched' : s'.pc.matched = none) (hevents : s'.pc.events = s.pc.events)
    (hadded : ∀ j, s'.pc.unadded j = false → s.pc.unadded j = false ∨ j = .readEnd st) :
    Turn s (.bind fd added) s' := by
  have hops : s.ops (.bind fd added) = bindOps (s.output st) st fd added := by rw [ops, hst]
  rcases Output.bind_true ho with ⟨hnone, ho⟩ | ⟨hpipe, hadd, ⟨hfile, hfd, ho⟩ | ⟨hfile, ho⟩⟩
  · rw [ho] at hs'
    have hslot : s.slot (.readEnd st) = none := if_pos hnone
    exact .unbound (by simp [hops, bindOps, hnone]) (hs'.trans (slots_self rfl rfl rfl)) hslot
      (hmatched'.trans hmatched.symm) hevents hadded fun _ => rfl
  · rw [ho] at hs'
    have hbind : s.ops (.bind fd added) =
        [.take (.redirect st) fd] ++ [.close (.writeEnd st), .watch (.readEnd st)] := by
      rw [hops, hadd]
      simp [bindOps, hpipe, hfile, hfd]
    refine .bound hbind
      (Or.inr ⟨fd, rfl, ?_, fun j hj hj' => ?_⟩) ?_ hmatched hmatched' hevents hadded
      fun _ => rfl
    · rw [hs', Output.slots_redirect, descriptor_of_ne hfd]
    · rw [hs']
      exact Output.slots_eq (fun h => by rw [h]; rfl) (fun h => absurd h hj) fun h => absurd h hj'
    · rw [hs', Output.slots_writeEnd]
      rfl
  · rw [ho] at hs'
    have hbind : s.ops (.bind fd added) =
        [] ++ [.close (.writeEnd st), .watch (.readEnd st)] := by
      rw [hops, hadd]
      simp [bindOps, hpipe, hfile]
    refine .bound hbind
      (Or.inl ⟨rfl, fun j hj => ?_⟩) ?_ hmatched hmatched' hevents hadded fun _ => rfl
    · rw [hs']
      exact Output.slots_eq (fun h => by rw [h]; rfl) (fun h => absurd h hj) fun h => by rw [h]; rfl
    · rw [hs', Output.slots_writeEnd]
      rfl

/-- `Output::receive`, for either stream. -/
theorem receive_turn (st : CaptureStream) {evs : List Int} {reads : List (Chunk × Int)}
    (hpc : s.pc = .receive (st = .err) evs)
    (hs' : s'.slot = ((s.output st).receive reads).1.slots st s.slot)
    (hpc' : s'.pc = .dispatch evs) : Turn s (.receive reads) s' := by
  have hst : s.stream = st := by
    rw [stream, hpc]
    cases st <;> rfl
  have hmatched : s.pc.matched = some (.readEnd st) := by
    rw [hpc]
    cases st <;> rfl
  have hu : ∀ u, s.unhandledAfter u (.receive reads) = u.erase (s.fd (.readEnd st)) := fun u => by
    rw [unhandledAfter, hst]
    rfl
  have hevents : s'.pc.events = s.pc.events := by
    rw [hpc, hpc']
    rfl
  have hmatched' : s'.pc.matched = none := by rw [hpc']; rfl
  have hadded : ∀ j, s.pc.unadded j = false := fun j => by rw [hpc]; rfl
  obtain ⟨str, hreceive⟩ := Output.receive_eq (s.output st) reads
  rw [hreceive] at hs'
  cases hends : (s.output st).ends reads with
  | true =>
    simp only [hends, if_true] at hs'
    -- the pipe is removed and closed, and the redirect file with it
    have hops : s.ops (.receive reads) =
        [.unwatch (.readEnd st), .close (.readEnd st), .close (.redirect st)] := by
      simp only [ops, hst, hends, if_true]
    refine .released hops (Or.inr ⟨st, rfl, ?_, rfl, fun j hj hj' => ?_⟩) ?_
      hmatched hmatched' hevents hadded hu
    · rw [hs', Output.slots_redirect]
      rfl
    · rw [hs']
      exact Output.slots_eq (fun h => absurd h hj) (fun h => by rw [h]; rfl) fun h => absurd h hj'
    · rw [hs', Output.slots_readEnd]
      rfl
  | false =>
    simp only [hends, Bool.false_eq_true, if_false] at hs'
    exact .consumed (by simp [ops, hst, hends]) (hs'.trans (slots_self rfl rfl rfl)) hmatched
      hmatched' hevents hadded hu

/-- A step from one point to another that has nothing to do with descriptors. -/
theorem Turn.of_pc {P P' : Pc} (hpc : s.pc = P) (hpc' : s'.pc = P') (hslot : s'.slot = s.slot)
    (hops : s.ops l = []) (hu : ∀ u, s.unhandledAfter u l = u)
    (hpoint : P'.matched = P.matched ∧ P'.events = P.events ∧
      ∀ i, P'.unadded i = false → P.unadded i = false) : Turn s l s' := by
  subst hpc hpc'
  exact .quiet hops hslot hpoint.1 hpoint.2.1 hpoint.2.2 hu

/-- A variable that is removed from the set and closed; the others keep their values. -/
theorem del_turn {fd : Int} (i : Slot) (hops : s.ops (.epollDel fd) = [.unwatch i, .close i])
    (hslot : s'.slot i = none) (hother : ∀ j, j ≠ i → s'.slot j = s.slot j)
    (hmatched : s.pc.matched = some i) (hmatched' : s'.pc.matched = none)
    (hevents : s'.pc.events = s.pc.events) (hadded : ∀ j, s.pc.unadded j = false)
    (hu : ∀ u, s.unhandledAfter u (.epollDel fd) = u.erase (s.fd i)) :
    Turn s (.epollDel fd) s' :=
  .released hops (Or.inl ⟨rfl, hother⟩) hslot hmatched hmatched' hevents hadded hu

/-- A variable that is added to the set; it was the one that was still to be added. -/
theorem add_turn {fd : Int} {ok : Bool} (i : Slot) (hops : s.ops (.epollAdd fd ok) = [.watch i])
    (hslot : s'.slot = s.slot) (hpolled : i.polled = true)
    (hmatched : s'.pc.matched = s.pc.matched) (hevents : s'.pc.events = s.pc.events)
    (hadded : ∀ j, s.pc.unadded j = decide (j = i)) : Turn s (.epollAdd fd ok) s' := by
  refine .added hops hslot hpolled hmatched hevents (fun j _ => ?_) fun _ => rfl
  rw [hadded]
  by_cases hj : j = i
  · exact Or.inr hj
  · exact Or.inl (decide_eq_false hj)

/-- A message has been read from the connection. -/
theorem received_turn {data : Bytes} {m : Message} {evs : List Int} (hpc : s.pc = .recv data evs)
    (hdata : data ≠ []) : Turn s (.read none) (Manager.received E s data m evs) := by
  have hslot : (Manager.received E s data m evs).slot = s.slot :=
    received_field Manager.slot fun _ _ _ => rfl
  -- a `loadRequest` that does not return is the one way not to come back
  have hpc' : (Manager.received E s data m evs).pc.lost = true ∨
      (Manager.received E s data m evs).pc.matched = none ∧
        (Manager.received E s data m evs).pc.events = evs :=
    received_pc (Or.inr ⟨rfl, rfl⟩) (Or.inr ⟨rfl, rfl⟩) (Or.inr ⟨rfl, rfl⟩) (Or.inl rfl)
      (Or.inr ⟨rfl, rfl⟩) (Or.inr ⟨rfl, rfl⟩)
  rcases hpc' with hlost | ⟨hmatched, hevents⟩
  · exact .lost hlost
  · refine .consumed (i := .connection) rfl hslot (by rw [hpc]; rfl) hmatched
      (by rw [hpc, hevents]; rfl) (fun j => by rw [hpc]; rfl) fun u => ?_
    obtain ⟨b, data, rfl⟩ := List.exists_cons_of_ne_nil hdata
    simp only [unhandledAfter, hpc]
    rfl

/-- **Every step is one of these.** `pipe` gives descriptors. -/
theorem step_turn (hm : Step E s l s')
    (hpipe : ∀ found r w, l = .load found (some (r, w)) → r ≠ -1 ∧ w ≠ -1) : Turn s l s' := by
  cases hm with
  | sigterm => exact .of_pc rfl rfl rfl rfl (fun _ => rfl) ⟨rfl, rfl, fun _ h => h⟩
  | throws | unlockThrow | epollCreateFail | argsDie | sigpipe => exact .lost rfl
  | loadOutFail | loadErrFail | cloneFail | bindOutFail | bindErrFail | timerCreateFail =>
    exact .lost rfl
  | destroyRunning | destroyIdle | destroyKill | destroySleep | destroyClose | envRound =>
    exact .lost rfl
  | @epollCreate fd hpc hfd =>
    refine .took (i := .epollfd) (d := fd) (by simp only [ops, if_neg hfd])
      (descriptor_of_ne hfd) (fun j hj => ?_)
      (by rw [hpc]; rfl) rfl (by rw [hpc]; rfl) (fun h => by cases h)
      (fun j hj h => ⟨by rw [hpc]; exact h, ?_⟩) fun _ => rfl
    · cases j <;> first | rfl | exact absurd rfl hj
    · rintro rfl
      cases hj
  | epollAdd hpc =>
    exact add_turn .connection (by simp [ops, hpc]) rfl rfl (by rw [hpc]; rfl) (by rw [hpc]; rfl)
      fun j => by rw [hpc]; rfl
  | loopCheck hpc =>
    -- wherever the loop goes on, there is no batch
    exact .of_pc hpc rfl rfl (by simp [ops, hpc]) (fun _ => rfl)
      (loopCheck_pc ⟨rfl, rfl, fun _ _ => rfl⟩ (fun _ _ _ => ⟨rfl, rfl, fun _ _ => rfl⟩)
        fun _ => ⟨rfl, rfl, fun _ _ => rfl⟩)
  | epollEintr hpc | epollIdle hpc | heartbeat hpc =>
    exact .reported rfl rfl rfl rfl (fun j => by rw [hpc]; rfl) (fun _ => rfl)
      (Or.inl rfl)
  | epollReady fds hpc =>
    exact .reported rfl rfl rfl rfl (fun j => by rw [hpc]; rfl) (fun _ => rfl)
      (Or.inr rfl)
  | dispatch evs hpc => exact .dispatched rfl hpc rfl
  | receiveOut reads hpc => exact receive_turn .out hpc slot_out rfl
  | receiveErr reads hpc => exact receive_turn .err hpc slot_err rfl
  | timerEvent hpc =>
    refine del_turn .timerfd (by simp [ops, hpc]) rfl (fun j hj => ?_) (by rw [hpc]; rfl) rfl
      (by rw [hpc]; rfl) (fun j => by rw [hpc]; rfl) fun _ => rfl
    cases j <;> first | rfl | exact absurd rfl hj
  | @waitNone k hpc =>
    refine .of_pc hpc rfl rfl rfl (fun _ => rfl) ?_
    cases k <;> exact ⟨rfl, rfl, fun _ _ => rfl⟩
  | waitOther hpc => exact .of_pc hpc hpc rfl rfl (fun _ => rfl) ⟨rfl, rfl, fun _ h => h⟩
  | @reap k st hpc =>
    refine .of_pc hpc rfl (reaped_field Manager.slot fun _ _ _ _ => rfl) rfl (fun _ => rfl) ?_
    exact reaped_pc ⟨rfl, rfl, fun _ _ => rfl⟩ ⟨rfl, rfl, fun _ _ => rfl⟩
      ⟨rfl, rfl, fun _ _ => rfl⟩
  | @argsSurvive k hpc =>
    refine .of_pc hpc rfl (clearEntry_field Manager.slot fun _ _ => rfl) rfl (fun _ => rfl) ?_
    exact clearEntry_pc ⟨rfl, rfl, fun _ _ => rfl⟩ ⟨rfl, rfl, fun _ _ => rfl⟩
  | @stopKill k hpc =>
    refine .of_pc hpc rfl rfl rfl (fun _ => rfl) ?_
    cases k <;> exact ⟨rfl, rfl, fun _ _ => rfl⟩
  | @stopIdle k hpc =>
    refine .of_pc hpc rfl rfl (by simp [ops, hpc]) (fun _ => rfl) ?_
    cases k <;> exact ⟨rfl, rfl, fun _ _ => rfl⟩
  | readNothing hpc =>
    exact .of_pc hpc rfl rfl rfl (fun _ => by simp [unhandledAfter, hpc])
      ⟨rfl, rfl, fun _ _ => rfl⟩
  | received hpc hdata => exact received_turn hpc hdata
  | disconnectStop hpc | disconnect hpc =>
    refine del_turn .connection (by simp [ops, hpc]) rfl (fun j hj => ?_) (by rw [hpc]; rfl) rfl
      (by rw [hpc]; rfl) (fun j => by rw [hpc]; rfl) fun _ => rfl
    cases j <;> first | rfl | exact absurd rfl hj
  | loadOut hpc ho =>
    refine load_turn .out (by rw [stream, hpc]) ho slot_out
      (fun r w h => hpipe _ r w (by rw [h])) (by rw [hpc]; rfl) rfl (by rw [hpc]; rfl)
      (by rw [hpc]; rfl) fun j hj => ?_
    rw [hpc]
    exact ⟨rfl, of_decide_eq_false hj⟩
  | loadErr hpc ho =>
    refine load_turn .err (by rw [stream, hpc]) ho slot_err
      (fun r w h => hpipe _ r w (by rw [h])) (by rw [hpc]; rfl) rfl (by rw [hpc]; rfl)
      (by rw [hpc]; rfl) fun j hj => ?_
    rw [hpc]
    obtain ⟨hout, herr⟩ := Bool.or_eq_false_iff.mp hj
    exact ⟨hout, of_decide_eq_false herr⟩
  | bindOut hpc ho =>
    refine bind_turn .out (by rw [stream, hpc]) ho slot_out
      (by rw [hpc]; rfl) rfl (by rw [hpc]; rfl) fun j hj => ?_
    rw [hpc]
    by_cases hout : j = .readEnd .out
    · exact Or.inr hout
    · exact Or.inl (Bool.or_eq_false_iff.mpr ⟨decide_eq_false hout, hj⟩)
  | bindErr hpc ho =>
    refine bind_turn .err (by rw [stream, hpc]) ho slot_err
      (by rw [hpc]; rfl) rfl (by rw [hpc]; rfl) fun j _ => ?_
    rw [hpc]
    by_cases herr : j = .readEnd .err
    · exact Or.inr herr
    · exact Or.inl (decide_eq_false herr)
  | @timerCreate data evs fd hpc _ hfd =>
    refine .took (i := .timerfd) (d := fd) (by simp only [ops, if_neg hfd]) (descriptor_of_ne hfd)
      (fun j hj => ?_)
      (by rw [hpc]; rfl) rfl (by rw [hpc]; rfl) (fun _ => by rw [hpc]; rfl)
      (fun j _ h => ⟨by rw [hpc]; rfl, of_decide_eq_false h⟩) fun _ => rfl
    cases j <;> first | rfl | exact absurd rfl hj
  | timerAdd hpc =>
    exact add_turn .timerfd (by simp [ops, hpc]) rfl rfl (by rw [hpc]; rfl) (by rw [hpc]; rfl)
      fun j => by rw [hpc]; rfl
  | @sent m k data hpc =>
    refine .of_pc hpc rfl rfl rfl (fun _ => rfl) ?_
    cases k <;> exact ⟨rfl, rfl, fun _ _ => rfl⟩
  | _ =>
    have hpc := ‹s.pc = _›
    exact .of_pc hpc rfl rfl (by simp [ops, hpc]) (fun _ => by simp [unhandledAfter])
      ⟨rfl, rfl, fun _ h => by first | rfl | exact h⟩

/-! ### What a step keeps -/

/-- Two variables are written. -/
theorem update_update {f g : Slot → Option Int} {i j : Slot} {a b : Option Int} (hi : g i = a)
    (hj : g j = b) (hother : ∀ k, k ≠ i → k ≠ j → g k = f k) :
    Function.update (Function.update f i a) j b = g := by
  refine Function.update_eq_iff.mpr ⟨hj.symm, fun k hkj => ?_⟩
  by_cases hki : k = i
  · rw [hki, Function.update_self, hi]
  · rw [Function.update_of_ne hki, hother k hki hkj]

/-- The operations are what the step does to the variables. -/
theorem Turn.var (ht : Turn s l s') (hvar : h.var = s.slot)
    (hexec : Machine.exec Handles.step h (s.ops l) = some h') :
    s'.pc.lost = true ∨ h'.var = s'.slot := by
  have hfold := Handles.exec_var hexec
  rw [hvar] at hfold
  cases ht with
  | lost hlost => exact Or.inl hlost
  | quiet hops hslot | reported hops hslot | consumed hops hslot | added hops hslot
  | unbound hops hslot =>
    rw [hops] at hfold
    exact Or.inr (hfold.trans hslot.symm)
  | dispatched hl hpc hs' =>
    rw [hl, ops, hpc] at hfold
    exact Or.inr (hfold.trans (congrArg slot hs').symm)
  | released hops hrest hslot =>
    rw [hops] at hfold
    rcases hrest with ⟨rfl, hother⟩ | ⟨st, rfl, hredirect, -, hother⟩
    · exact Or.inr (hfold.trans
        (Function.update_eq_iff.mpr ⟨hslot.symm, fun j hj => (hother j hj).symm⟩))
    · exact Or.inr (hfold.trans (update_update hslot hredirect hother))
  | took hops hslot hother =>
    rw [hops] at hfold
    exact Or.inr (hfold.trans
      (Function.update_eq_iff.mpr ⟨hslot.symm, fun j hj => (hother j hj).symm⟩))
  | piped hops hread hwrite hother =>
    rw [hops] at hfold
    exact Or.inr (hfold.trans (update_update hread hwrite hother))
  | bound hops hfirst hwrite =>
    rw [hops] at hfold
    rcases hfirst with ⟨rfl, hother⟩ | ⟨d, rfl, hredirect, hother⟩
    · exact Or.inr (hfold.trans
        (Function.update_eq_iff.mpr ⟨hwrite.symm, fun j hj => (hother j hj).symm⟩))
    · exact Or.inr (hfold.trans
        (update_update hredirect hwrite fun j hj hj' => hother j hj' hj))

/-- What is taken into a watched variable finds it empty. -/
theorem slot_of_vacant (hvacant : s.vacant l = true) {i : Slot} {d : Int}
    (hop : .take i d ∈ s.ops l) (hi : i.polled = true) : s.slot i = none := by
  have htake := List.all_eq_true.mp hvacant _ hop
  simpa [hi] using htake

/-- What is not taken into a watched variable overwrites nothing. -/
theorem vacant_of_forall (hops : ∀ i d, .take i d ∈ s.ops l → i.polled = false) :
    s.vacant l = true := by
  refine List.all_eq_true.mpr fun op hop => ?_
  cases op with
  | take i d => simp [hops i d hop]
  | _ => rfl

/-- A step that overwrites no watched variable is careful. -/
theorem Turn.careful (ht : Turn s l s') (hvar : h.var = s.slot) (hvacant : s.vacant l = true) :
    s'.pc.lost = true ∨
      Machine.StepsMeet Handles.step (Handles.Careful (·.polled = true)) h (s.ops l) := by
  have htake : ∀ {i d}, .take i d ∈ s.ops l → i.polled = true → ∀ e, h.var i = some e →
      e ∉ h.interest := by
    intro i d hop hi e he
    rw [hvar, slot_of_vacant hvacant hop hi] at he
    cases he
  cases ht with
  | lost hlost => exact Or.inl hlost
  | quiet hops | reported hops | consumed hops | unbound hops =>
    rw [hops]
    exact Or.inr trivial
  | dispatched hl hpc =>
    rw [hl, ops, hpc]
    exact Or.inr trivial
  | released hops hrest =>
    rw [hops]
    refine Or.inr (Handles.careful_release _ fun h => ?_)
    rcases hrest with ⟨rfl, -⟩ | ⟨st, rfl, -⟩
    · trivial
    · exact ⟨Handles.careful_close Bool.false_ne_true, fun _ _ => trivial⟩
  | took hops =>
    rw [hops] at htake ⊢
    exact Or.inr ⟨htake List.mem_cons_self, fun _ _ => trivial⟩
  | piped hops =>
    rw [hops] at htake ⊢
    -- the write end is never watched
    exact Or.inr ⟨htake List.mem_cons_self, fun h _ =>
      ⟨Handles.careful_take Bool.false_ne_true, fun _ _ => trivial⟩⟩
  | added hops _ hpolled =>
    rw [hops]
    exact Or.inr ⟨hpolled, fun _ _ => trivial⟩
  | @bound st first hops hfirst =>
    rw [hops]
    have hlast : ∀ h : Handles Slot Int,
        Machine.StepsMeet Handles.step (Handles.Careful (·.polled = true)) h
          [.close (.writeEnd st), .watch (.readEnd st)] := fun h =>
      ⟨Handles.careful_close Bool.false_ne_true, fun _ _ => ⟨rfl, fun _ _ => trivial⟩⟩
    rcases hfirst with ⟨rfl, -⟩ | ⟨d, rfl, -⟩
    · exact Or.inr (hlast h)
    · exact Or.inr ⟨Handles.careful_take Bool.false_ne_true, fun h _ => hlast h⟩

/-- What has been added is watched. -/
theorem Turn.watched (ht : Turn s l s') (hvar : h.var = s.slot) (hh : h.Holds)
    (hw : h.Watched fun i => i.polled = true ∧ s.pc.unadded i = false)
    (hexec : Machine.exec Handles.step h (s.ops l) = some h') :
    s'.pc.lost = true ∨ h'.Watched fun i => i.polled = true ∧ s'.pc.unadded i = false := by
  -- by cases: what the operations watch, and what counts as added before and after
  cases ht with
  | lost hlost => exact Or.inl hlost
  | quiet hops _ _ _ hadded =>
    rw [hops] at hexec
    obtain rfl := Option.some.inj hexec
    exact Or.inr (hw.mono fun i hi => ⟨hi.1, hadded i hi.2⟩)
  | reported hops _ _ _ hadded | consumed hops _ _ _ _ hadded =>
    rw [hops] at hexec
    obtain rfl := Option.some.inj hexec
    exact Or.inr (hw.mono fun i hi => ⟨hi.1, hadded i⟩)
  | dispatched hl hpc =>
    rw [hl, ops, hpc] at hexec
    obtain rfl := Option.some.inj hexec
    exact Or.inr (hw.mono fun i hi => ⟨hi.1, by rw [hpc]; rfl⟩)
  | released hops hrest _ _ _ _ hadded =>
    rw [hops] at hexec
    obtain ⟨h₁, h1, hexec⟩ := Machine.exec_cons_eq_some.mp hexec
    obtain ⟨h₂, h2, hexec⟩ := Machine.exec_cons_eq_some.mp hexec
    have hw₂ := hw.release hh h1 h2
    rcases hrest with ⟨rfl, -⟩ | ⟨st, rfl, -⟩
    · obtain rfl := Option.some.inj hexec
      exact Or.inr (hw₂.mono fun i hi => ⟨hi.1, hadded i⟩)
    · obtain ⟨h₃, h3, hexec⟩ := Machine.exec_cons_eq_some.mp hexec
      obtain rfl := Option.some.inj hexec
      exact Or.inr ((hw₂.close h3).mono fun i hi => Or.inl ⟨hi.1, hadded i⟩)
  | took hops _ _ _ _ _ _ hadded =>
    rw [hops] at hexec
    obtain ⟨h₁, h1, hexec⟩ := Machine.exec_cons_eq_some.mp hexec
    obtain rfl := Option.some.inj hexec
    refine Or.inr ((hw.take h1).mono fun i hi => ?_)
    obtain ⟨hold, hne⟩ := hadded i hi.1 hi.2
    exact ⟨⟨hi.1, hold⟩, hne⟩
  | piped hops _ _ _ _ _ _ _ hadded =>
    rw [hops] at hexec
    obtain ⟨h₁, h1, hexec⟩ := Machine.exec_cons_eq_some.mp hexec
    obtain ⟨h₂, h2, hexec⟩ := Machine.exec_cons_eq_some.mp hexec
    obtain rfl := Option.some.inj hexec
    refine Or.inr (((hw.take h1).take h2).mono fun i hi => ?_)
    obtain ⟨hold, hne⟩ := hadded i hi.2
    refine ⟨⟨⟨hi.1, hold⟩, hne⟩, ?_⟩
    -- the write end is not watched
    rintro rfl
    exact Bool.false_ne_true hi.1
  | added hops _ _ _ _ hadded =>
    rw [hops] at hexec
    obtain ⟨h₁, h1, hexec⟩ := Machine.exec_cons_eq_some.mp hexec
    obtain rfl := Option.some.inj hexec
    exact Or.inr ((hw.watch h1).mono fun i hi => (hadded i hi.2).imp_left (⟨hi.1, ·⟩))
  | @bound st first hops hfirst _ _ _ _ hadded =>
    rw [hops] at hexec
    -- the redirect file does not matter
    have hfirst' : ∃ h₀, (h₀.Watched fun i => i.polled = true ∧ s.pc.unadded i = false) ∧
        Machine.exec Handles.step h₀ [.close (.writeEnd st), .watch (.readEnd st)] = some h' := by
      rcases hfirst with ⟨rfl, -⟩ | ⟨d, rfl, -⟩
      · exact ⟨h, hw, hexec⟩
      · obtain ⟨h₁, h1, hexec⟩ := Machine.exec_cons_eq_some.mp hexec
        refine ⟨h₁, (hw.take h1).mono fun i hi => ⟨hi, ?_⟩, hexec⟩
        rintro rfl
        exact Bool.false_ne_true hi.1
    obtain ⟨h₀, hw₀, hexec⟩ := hfirst'
    obtain ⟨h₁, h1, hexec⟩ := Machine.exec_cons_eq_some.mp hexec
    obtain ⟨h₂, h2, hexec⟩ := Machine.exec_cons_eq_some.mp hexec
    obtain rfl := Option.some.inj hexec
    exact Or.inr (((hw₀.close h1).watch h2).mono fun i hi =>
      (hadded i hi.2).imp_left fun h => Or.inl ⟨hi.1, h⟩)
  | unbound hops _ hnone _ _ hadded =>
    rw [hops] at hexec
    obtain rfl := Option.some.inj hexec
    -- there is nothing that could have been added
    refine Or.inr fun i d hi hd => ?_
    rcases hadded i hi.2 with hold | rfl
    · exact hw i d ⟨hi.1, hold⟩ hd
    · rw [hvar, hnone] at hd
      cases hd

/-! ### The batch -/

theorem slot_eq_some {i : Slot} {d : Int} : s.slot i = some d ↔ s.fd i = d ∧ s.fd i ≠ -1 :=
  descriptor_eq_some

/-- The slots say what the variables hold. -/
theorem fd_of_slot (hslot : s'.slot = s.slot) : s'.fd = s.fd := by
  funext i
  cases hi : s.slot i with
  | none =>
    have hnone : ∀ t : Manager, t.slot i = none → t.fd i = -1 := fun t ht => by
      by_contra hne
      cases ht.symm.trans (descriptor_of_ne hne)
    rw [hnone s hi, hnone s' (congrFun hslot i ▸ hi)]
  | some d => rw [(slot_eq_some.mp hi).1, (slot_eq_some.mp ((congrFun hslot i).trans hi)).1]

theorem batch_of_none (hmatched : s.pc.matched = none) : s.batch = s.pc.events := by
  rw [batch, hmatched]
  rfl

theorem batch_of_some {i : Slot} (hmatched : s.pc.matched = some i) :
    s.batch = s.fd i :: s.pc.events := by
  rw [batch, hmatched]
  rfl

/-- The loop finds the handler for a descriptor that a variable holds. -/
theorem dispatch_matched {i : Slot} {d : Int} (evs : List Int) (hi : i.polled = true)
    (hslot : s.slot i = some d) :
    ∃ j, (s.dispatch (d :: evs)).matched = some j ∧ s.fd j = d ∧
      (s.dispatch (d :: evs)).events = evs := by
  obtain ⟨hfd, hne⟩ := slot_eq_some.mp hslot
  rw [dispatch]
  split_ifs with hconn hout herr htimer
  · exact ⟨.connection, rfl, hconn.symm, rfl⟩
  · exact ⟨.readEnd .out, rfl, hout.symm, rfl⟩
  · exact ⟨.readEnd .err, rfl, herr.symm, rfl⟩
  · exact ⟨.timerfd, rfl, htimer.2.symm, rfl⟩
  · -- it is one of the four
    cases i with
    | connection => exact absurd hfd.symm hconn
    | timerfd => exact absurd ⟨hne, hfd.symm⟩ htimer
    | readEnd st =>
      cases st with
      | out => exact absurd hfd.symm hout
      | err => exact absurd hfd.symm herr
    | epollfd | writeEnd | redirect => cases hi

/-- The events of the batch are on watched descriptors, each once, and they are what is left
to be handled. -/
structure Pending (s : Manager) (h : Handles Slot Int) (u : List Int) : Prop where
  known : ∀ d ∈ s.batch, d ∈ h.interest
  nodup : s.batch.Nodup
  handled : u = s.batch

theorem Pending.of_eq (hp : Pending s h u) (hbatch : s'.batch = s.batch)
    (hinterest : ∀ d ∈ h.interest, d ∈ h'.interest) : Pending s' h' u where
  known d hd := hinterest d (hp.known d (hbatch ▸ hd))
  nodup := hbatch ▸ hp.nodup
  handled := hp.handled.trans hbatch.symm

/-- The first event has been handled. -/
theorem Pending.tail {d : Int} (hp : Pending s h u) (hbatch : s.batch = d :: s'.batch)
    (hinterest : ∀ e ∈ h.interest, e ≠ d → e ∈ h'.interest) : Pending s' h' (u.erase d) := by
  have hnodup := hp.nodup
  rw [hbatch, List.nodup_cons] at hnodup
  constructor
  case known =>
    intro e he
    refine hinterest e (hp.known e (hbatch ▸ List.mem_cons_of_mem d he)) ?_
    rintro rfl
    exact hnodup.1 he
  case nodup => exact hnodup.2
  case handled => rw [hp.handled, hbatch, List.erase_cons_head]

/-- A step without events. -/
theorem Pending.of_events (hp : Pending s h u) (hmatched : s.pc.matched = none)
    (hmatched' : s'.pc.matched = none) (hevents : s'.pc.events = s.pc.events)
    (hexec : Machine.exec Handles.step h (s.ops l) = some h')
    (hops : ∀ i, .unwatch i ∉ s.ops l) : Pending s' h' u :=
  hp.of_eq (by rw [batch_of_none hmatched, batch_of_none hmatched', hevents])
    fun _ hd => Handles.interest_exec hexec hd hops

theorem Turn.pending (ht : Turn s l s') (hvar : h.var = s.slot)
    (ho : h.Owned (·.polled = true)) (hp : Pending s h u)
    (hready : ∀ fds, l = .epollWait (.ready fds) → fds.Nodup ∧ ∀ fd ∈ fds, fd ∈ h.interest)
    (hexec : Machine.exec Handles.step h (s.ops l) = some h') :
    s'.pc.lost = true ∨ Pending s' h' (s.unhandledAfter u l) := by
  have hsame : s'.slot = s.slot → s'.pc.matched = s.pc.matched →
      s'.pc.events = s.pc.events → s'.batch = s.batch := fun hslot hmatched hevents => by
    rw [batch, batch, fd_of_slot hslot, hmatched, hevents]
  cases ht with
  | lost hlost => exact Or.inl hlost
  | quiet hops hslot hmatched hevents _ hu | unbound hops hslot _ hmatched hevents _ hu =>
    rw [hops] at hexec
    obtain rfl := Option.some.inj hexec
    rw [hu]
    exact Or.inr (hp.of_eq (hsame hslot hmatched hevents) fun _ => id)
  | added hops hslot _ hmatched hevents _ hu =>
    rw [hu]
    refine Or.inr (hp.of_eq (hsame hslot hmatched hevents) fun _ hd =>
      Handles.interest_exec hexec hd fun i => ?_)
    simp [hops]
  | @reported fds hops _ hmatched' hevents _ hu hl =>
    rw [hops] at hexec
    obtain rfl := Option.some.inj hexec
    have hbatch : s'.batch = fds := (batch_of_none hmatched').trans hevents
    rw [hu]
    rcases hl with rfl | rfl
    · exact Or.inr ⟨fun d hd => absurd (hbatch ▸ hd) List.not_mem_nil, hbatch ▸ List.nodup_nil,
        hbatch.symm⟩
    · obtain ⟨hnodup, hknown⟩ := hready fds rfl
      exact Or.inr ⟨fun d hd => hknown d (hbatch ▸ hd), hbatch ▸ hnodup, hbatch.symm⟩
  | @dispatched evs hl hpc hs' =>
    rw [hl, ops, hpc] at hexec
    obtain rfl := Option.some.inj hexec
    have hbatch : s.batch = evs := by rw [batch, hpc]; rfl
    rw [hl, hs']
    refine Or.inr (hp.of_eq ?_ fun _ => id)
    cases evs with
    | nil => exact hbatch.symm ▸ rfl
    | cons d evs =>
      -- what has been reported is watched, so a variable holds it
      obtain ⟨-, i, hi, hslot⟩ := ho d (hp.known d (hbatch ▸ List.mem_cons_self))
      obtain ⟨j, hmatched, hfd, hevents⟩ :=
        dispatch_matched evs hi (hvar ▸ hslot)
      rw [hbatch, batch_of_some hmatched]
      exact congrArg₂ List.cons hfd hevents
  | @consumed i hops hslot hmatched hmatched' hevents _ hu =>
    rw [hops] at hexec
    obtain rfl := Option.some.inj hexec
    rw [hu]
    exact Or.inr (hp.tail (by rw [batch_of_some hmatched, batch_of_none hmatched', hevents])
      fun _ he _ => he)
  | @released i rest hops hrest _ hmatched hmatched' hevents _ hu =>
    rw [hops] at hexec
    obtain ⟨h₁, h1, hexec⟩ := Machine.exec_cons_eq_some.mp hexec
    rw [hu]
    refine Or.inr (hp.tail (by rw [batch_of_some hmatched, batch_of_none hmatched', hevents])
      fun e he hne => Handles.interest_exec hexec (Handles.interest_step h1 he ?_) ?_)
    · -- what goes out of the watch is the descriptor of this event alone
      rintro j hj hvar'
      cases hj
      rw [hvar] at hvar'
      exact hne (slot_eq_some.mp hvar').1.symm
    · rcases hrest with ⟨rfl, -⟩ | ⟨st, rfl, -⟩ <;> simp
  | took hops _ _ hmatched hmatched' hevents _ _ hu =>
    rw [hu]
    exact Or.inr (hp.of_events hmatched hmatched' hevents hexec (by simp [hops]))
  | piped hops _ _ _ hmatched hmatched' hevents _ _ hu =>
    rw [hu]
    exact Or.inr (hp.of_events hmatched hmatched' hevents hexec (by simp [hops]))
  | bound hops hfirst _ hmatched hmatched' hevents _ hu =>
    rw [hu]
    refine Or.inr (hp.of_events hmatched hmatched' hevents hexec ?_)
    rcases hfirst with ⟨rfl, -⟩ | ⟨d, rfl, -⟩ <;> simp [hops]

/-! ### The invariant -/

/-- What a manager keeps that is not lost: every watched descriptor is in a variable, and what
has been added to a variable is watched. -/
structure Tended (s : Manager) (h : Handles Slot Int) (u : List Int) : Prop where
  var : h.var = s.slot
  holds : h.Holds
  owned : h.Owned (·.polled = true)
  watched : h.Watched fun i => i.polled = true ∧ s.pc.unadded i = false
  pending : Pending s h u

/-- **A step that overwrites no watched variable.** -/
theorem Turn.tended (ht : Turn s l s') (hi : Tended s h u) (hvacant : s.vacant l = true)
    (hready : ∀ fds, l = .epollWait (.ready fds) → fds.Nodup ∧ ∀ fd ∈ fds, fd ∈ h.interest)
    (hexec : Machine.exec Handles.step h (s.ops l) = some h') :
    s'.pc.lost = true ∨ Tended s' h' (s.unhandledAfter u l) := by
  rcases ht.var hi.var hexec with hlost | hvar
  · exact Or.inl hlost
  rcases ht.careful hi.var hvacant with hlost | hcareful
  · exact Or.inl hlost
  rcases ht.watched hi.var hi.holds hi.watched hexec with hlost | hwatched
  · exact Or.inl hlost
  rcases ht.pending hi.var hi.owned hi.pending hready hexec with hlost | hpending
  · exact Or.inl hlost
  exact Or.inr ⟨hvar, hi.holds.exec hexec, Handles.owned_exec hi.holds hi.owned hcareful hexec,
    hwatched, hpending⟩

/-- **A step that overwrites one** leaves a descriptor that nobody knows. -/
theorem Turn.orphan (ht : Turn s l s') (hi : Tended s h u) (hvacant : ¬ s.vacant l = true)
    (hexec : Machine.exec Handles.step h (s.ops l) = some h') :
    s'.pc.lost = true ∨ ∃ d, h'.Orphan d := by
  cases ht with
  | lost hlost => exact Or.inl hlost
  | quiet hops | reported hops | consumed hops | unbound hops | added hops =>
    exact absurd (vacant_of_forall (by simp [hops])) hvacant
  | dispatched hl hpc =>
    rw [hl] at hvacant
    exact absurd (vacant_of_forall (by simp [ops, hpc])) hvacant
  | released hops hrest =>
    refine absurd (vacant_of_forall ?_) hvacant
    rcases hrest with ⟨rfl, -⟩ | ⟨st, rfl, -⟩ <;> simp [hops]
  | bound hops hfirst =>
    refine absurd (vacant_of_forall fun i d hop => ?_) hvacant
    rcases hfirst with ⟨rfl, -⟩ | ⟨e, rfl, -⟩
    · simp [hops] at hop
    · obtain ⟨rfl, -⟩ : i = .redirect _ ∧ d = e := by simpa [hops] using hop
      rfl
  | @took i d hops _ _ _ _ _ hold =>
    -- the old descriptor had been added, so it is watched
    rw [vacant, hops] at hvacant
    obtain ⟨hpolled, e, he⟩ : i.polled = true ∧ ∃ e, s.slot i = some e := by
      simpa [Option.ne_none_iff_exists'] using hvacant
    rw [hops] at hexec
    obtain ⟨h₁, h1, hexec⟩ := Machine.exec_cons_eq_some.mp hexec
    obtain rfl := Option.some.inj hexec
    rw [← hi.var] at he
    exact Or.inr ⟨e, Handles.orphan_of_take hi.holds he
      (hi.watched i e ⟨hpolled, hold hpolled⟩ he) h1⟩
  | @piped st r w hops _ _ _ _ _ _ hold =>
    rw [vacant, hops] at hvacant
    obtain ⟨e, he⟩ : ∃ e, s.slot (.readEnd st) = some e := by
      simpa [Slot.polled, Option.ne_none_iff_exists'] using hvacant
    rw [hops] at hexec
    obtain ⟨h₁, h1, hexec⟩ := Machine.exec_cons_eq_some.mp hexec
    rw [← hi.var] at he
    have ho := Handles.orphan_of_take hi.holds he (hi.watched _ e ⟨rfl, hold⟩ he) h1
    -- the write end does not bring it back
    exact Or.inr ⟨e, ho.exec hexec⟩

end Manager

namespace Watch

variable {E : Env} {w w' : Watch} {ev : Event} {evs : List Event}

/-- A step of the manager, or the end of a child. -/
theorem step_cases (h : w.step E ev = some w') :
    (∃ l h', ev = .mgr l ∧ w.gives l = true ∧
      Manager.Step E w.proc.mgr l w'.proc.mgr ∧
      Machine.exec Handles.step w.handles (w.proc.mgr.ops l) = some h' ∧
      w'.handles = { h' with var := w'.proc.mgr.slot } ∧
      w'.unhandled = w.proc.mgr.unhandledAfter w.unhandled l) ∨
    ((∀ l, ev ≠ .mgr l) ∧ w'.proc.mgr = w.proc.mgr ∧ w'.handles = w.handles ∧
      w'.unhandled = w.unhandled) := by
  cases ev with
  | mgr l =>
    obtain ⟨hgives, h⟩ := Option.ite_none_right_eq_some.mp h
    obtain ⟨p, hp, h⟩ := Option.bind_eq_some_iff.mp h
    obtain ⟨h', hexec, rfl⟩ := Option.map_eq_some_iff.mp h
    cases Proc.step_cases hp with
    | mgr _ hm => exact Or.inl ⟨l, h', rfl, hgives, hm, hexec, rfl, rfl⟩
  | exit pid st =>
    obtain ⟨p, hp, rfl⟩ := Option.map_eq_some_iff.mp h
    cases Proc.step_cases hp with
    | exit =>
      refine Or.inr ⟨fun l hl => ?_, rfl, rfl, rfl⟩
      cases hl

/-- What the kernel gives to `pipe`. -/
theorem gives_load {l : Label} (h : w.gives l = true) (found : Bool) (r wr : Int)
    (hl : l = .load found (some (r, wr))) : r ≠ -1 ∧ wr ≠ -1 := by
  subst hl
  obtain ⟨hr, hw⟩ := Bool.and_eq_true_iff.mp h
  have hr' := of_decide_eq_true hr
  have hw' := of_decide_eq_true hw
  omega

/-- What `epoll_wait` reports. -/
theorem gives_ready {l : Label} (h : w.gives l = true) (fds : List Int)
    (hl : l = .epollWait (.ready fds)) : fds.Nodup ∧ ∀ fd ∈ fds, fd ∈ w.interest := by
  subst hl
  simp only [gives, Bool.and_eq_true, decide_eq_true_eq, List.all_eq_true] at h
  exact ⟨h.1.2, h.2⟩

/-- The manager is tended, if it comes back to the loop at all. -/
def Good (w : Watch) : Prop :=
  w.proc.mgr.pc.lost = true ∨ w.proc.mgr.Tended w.handles w.unhandled

/-- Some descriptor is watched that the manager does not know, if it comes back to the loop. -/
def Damaged (w : Watch) : Prop := w.proc.mgr.pc.lost = true ∨ ∃ d, w.handles.Orphan d

theorem good_start (fd : ℕ) (inherited : Finset ℕ) : Good (start fd inherited) := by
  have hslot : ∀ {i : Slot} {d}, (start fd inherited).handles.var i = some d →
      i = .connection ∧ d = fd := by
    intro i d hi
    obtain ⟨hfd, hne⟩ := descriptor_eq_some.mp hi
    rcases i with _ | _ | _ | st | st | st
    case connection => exact ⟨rfl, hfd.symm⟩
    case epollfd | timerfd => exact absurd rfl hne
    all_goals cases st <;> exact absurd rfl hne
  refine Or.inr ⟨rfl, ⟨fun hi => ?_, fun hi hj => ?_⟩, fun d hd => ?_, fun i d hi hd => ?_, ?_⟩
  · rw [(hslot hi).2]
    exact Finset.mem_map.mpr ⟨fd, Finset.mem_insert_self fd inherited, rfl⟩
  · rw [(hslot hi).1, (hslot hj).1]
  · exact absurd hd (Finset.notMem_empty d)
  · -- the connection has not been added
    obtain ⟨rfl, -⟩ := hslot hd
    cases hi.2
  · exact ⟨fun d hd => absurd hd List.not_mem_nil, List.nodup_nil, rfl⟩

theorem good_step (hg : Good w) (hv : VacantStep w ev) (h : w.step E ev = some w') :
    Good w' := by
  rcases step_cases h with ⟨l, h', rfl, hgives, hm, hexec, hhandles, hu⟩ | ⟨-, hmgr, hhandles, hu⟩
  · rcases hg with hlost | hi
    · exact Or.inl (Manager.lost_step hm hlost)
    · -- the variables of the kernel's view are those of the manager after the step
      have hturn := Manager.step_turn hm (gives_load hgives)
      refine (hturn.tended hi hv (gives_ready hgives) hexec).imp_right fun hi' => ?_
      rw [hhandles, hu, ← hi'.var]
      exact hi'
  · rwa [Good, hmgr, hhandles, hu]

/-- Where a watched variable is overwritten, its descriptor is lost. -/
theorem damaged_of_bad (hg : Good w) (hv : ¬ VacantStep w ev) (h : w.step E ev = some w') :
    Damaged w' := by
  rcases step_cases h with ⟨l, h', rfl, hgives, hm, hexec, hhandles, -⟩ | ⟨hev, -⟩
  · rcases hg with hlost | hi
    · exact Or.inl (Manager.lost_step hm hlost)
    · have hturn := Manager.step_turn hm (gives_load hgives)
      rcases hturn.var hi.var hexec with hlost | hvar
      · exact Or.inl hlost
      · refine (hturn.orphan hi hv hexec).imp_right ?_
        rw [hhandles, ← hvar]
        exact id
  · cases ev with
    | mgr l => exact absurd rfl (hev l)
    | exit => exact absurd trivial hv

theorem damaged_step (hd : Damaged w) (h : w.step E ev = some w') : Damaged w' := by
  rcases step_cases h with ⟨l, h', rfl, hgives, hm, hexec, hhandles, -⟩ | ⟨-, hmgr, hhandles, -⟩
  · rcases hd with hlost | ⟨d, ho⟩
    · exact Or.inl (Manager.lost_step hm hlost)
    · have hturn := Manager.step_turn hm (gives_load hgives)
      refine (hturn.var rfl hexec).imp_right fun hvar => ⟨d, ?_⟩
      rw [hhandles, ← hvar]
      exact ho.exec hexec
  · rwa [Damaged, hmgr, hhandles]

theorem attended_of_tended (hi : w.proc.mgr.Tended w.handles w.unhandled)
    (hpc : w.proc.mgr.pc = .epollWait) : Attended w := by
  constructor
  case exactly =>
    refine fun fd => ⟨hi.owned fd, fun ⟨_, i, hpolled, hslot⟩ => ?_⟩
    exact hi.watched i fd ⟨hpolled, by rw [hpc]; rfl⟩ hslot
  case distinct =>
    intro i j _ _ hne heq
    obtain ⟨d, hd⟩ := Option.ne_none_iff_exists'.mp hne
    exact hi.holds.distinct hd (heq.symm.trans hd)
  case dispatched =>
    intro fd hfd evs heq
    obtain ⟨-, i, hpolled, hslot⟩ := hi.owned fd hfd
    obtain ⟨j, hmatched, -⟩ := Manager.dispatch_matched evs hpolled hslot
    rw [heq] at hmatched
    cases hmatched
  case handled => rw [hi.pending.handled, Manager.batch, hpc]; rfl

/-- **Every watched descriptor has an owner**, whenever the manager is at `epoll_wait`, exactly
when no pipe has been opened and no timer made for a variable that still held one. -/
theorem attended_iff {fd : ℕ} {inherited : Finset ℕ}
    (h : Machine.exec (step E) (start fd inherited) evs = some w)
    (hpc : w.proc.mgr.pc = .epollWait) :
    Attended w ↔ Machine.StepsMeet (step E) VacantStep (start fd inherited) evs := by
  have hstays : ¬ w.proc.mgr.pc.lost = true := by
    rw [hpc]
    exact Bool.false_ne_true
  rcases Machine.meet_or_damaged (fun _ _ _ => good_step) (fun _ _ _ => damaged_of_bad)
      (fun _ _ _ => damaged_step) (good_start fd inherited) h with ⟨hmeet, hg⟩ | ⟨hmeet, hd⟩
  · exact iff_of_true (attended_of_tended (hg.resolve_left hstays) hpc) hmeet
  · refine iff_of_false (fun ha => ?_) hmeet
    -- an orphan is watched, and no variable holds it
    obtain ⟨d, ho⟩ := hd.resolve_left hstays
    obtain ⟨-, i, -, hslot⟩ := (ha.exactly d).mp ho.watched
    exact ho.lost i hslot

/-- A manager that serves `/bin/ls`. -/
theorem attended_iff_serving :
    ∃ w, Machine.exec (step Proto3.env) (start 5 {3}) (Proc.lsLabels.map .mgr) = some w ∧
      w.interest = {5, 7} ∧ Attended w := by
  obtain ⟨w, hrun, hw⟩ := Machine.exec_of_any
    (show (Machine.exec (step Proto3.env) (start 5 {3}) (Proc.lsLabels.map .mgr)).any
      (fun w => w.proc.mgr.pc == .epollWait && w.interest == {5, 7}) = true by decide +kernel)
  simp only [Bool.and_eq_true, beq_iff_eq] at hw
  exact ⟨w, hrun, hw.2, (attended_iff hrun hw.1).mpr (by decide +kernel)⟩

/-- The timer of the first command is still there when the second one gets its own. -/
def secondTimer : List Event :=
  Proc.foregroundTwice ++ (Label.clone 101 :: Proc.registerLabels).map .mgr

/-- It expires. -/
def firstExpires : List Label := [.epollWait (.ready [7]), .tau] ++ Proc.loopLabels

/-- Its event is passed over, and it is still watched. -/
theorem not_attended :
    ∃ w, Machine.exec (step Proto3.env) (start 5 ∅) (secondTimer ++ firstExpires.map .mgr) =
        some w ∧ w.proc.mgr.pc = .epollWait ∧ w.interest = {5, 7, 8} ∧ w.unhandled = [7] ∧
      ¬ Attended w := by
  obtain ⟨w, hrun, hw⟩ := Machine.exec_of_any
    (show (Machine.exec (step Proto3.env) (start 5 ∅)
        (secondTimer ++ firstExpires.map .mgr)).any
      (fun w => w.proc.mgr.pc == .epollWait && w.interest == {5, 7, 8} && w.unhandled == [7]) = true
      by decide +kernel)
  simp only [Bool.and_eq_true, beq_iff_eq] at hw
  obtain ⟨⟨hpc, hinterest⟩, hunhandled⟩ := hw
  refine ⟨w, hrun, hpc, hinterest, hunhandled, fun ha => ?_⟩
  rw [ha.handled] at hunhandled
  cases hunhandled

end Watch

end Srun
