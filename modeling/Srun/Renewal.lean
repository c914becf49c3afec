import Srun.Watching

/-!
# A further command, and what epoll watches

`Reuse` compares the variables of a manager that serves a further command with those of a
fresh one. A descriptor that the first command has left in the interest list of `epoll` is in
no variable: the loop passes over its events, and they come back at once. So the managers are
compared together with the kernel's view of their descriptors.

`served_fresh` says when the first command does not show. At the clone of a further one the
variables are unused (`Manager.unused`), and nothing but the connection is watched. Then
there is a run of a freshly forked manager, of which nothing is known but that it gets this
one EXE, that leads to a state in which it and the old manager have the same runs from there
on (`Machine.Alike`): what the one can do, the kernel's answers included, so can the other.
-/

namespace Srun

/-! ### What is done to the descriptors is seen -/

/-- What a lost manager calls does not throw. -/
theorem Pc.not_throwing_of_lost {pc : Pc} (h : pc.lost = true) : pc.throwing = false := by
  cases pc with
  | handle | send | recv | epollAdd | epollWait => cases h
  | _ => rfl

namespace Manager

variable {E : Env} {s s' t : Manager} {l : Label}

/-- What `load`, `bind` and `receive` look at is seen at every point. -/
theorem output_of_view (h : s.view = t.view) (st : CaptureStream) :
    (s.output st).mode = (t.output st).mode ∧ (s.output st).pipefd0 = (t.output st).pipefd0 ∧
      (s.output st).str = (t.output st).str := by
  cases st with
  | out =>
    exact ⟨congrArg (·.out.mode) h, congrArg (·.out.pipefd0) h, congrArg (·.out.str) h⟩
  | err =>
    exact ⟨congrArg (·.err.mode) h, congrArg (·.err.pipefd0) h, congrArg (·.err.str) h⟩

theorem ops_of_view (h : s.view = t.view) : s.ops l = t.ops l := by
  have hpc : s.pc = t.pc := congrArg (·.pc) h
  have hrequest : s.request = t.request := congrArg (·.request) h
  have hstream : s.stream = t.stream := by rw [stream, stream, hpc]
  obtain ⟨hmode, hpipe, hstr⟩ := output_of_view h t.stream
  cases l with
  | receive reads =>
    have hends : (s.output t.stream).ends reads = (t.output t.stream).ends reads := by
      rw [Output.ends, Output.ends, hmode, hstr]
    simp only [ops, hstream, hends]
  | bind fd added =>
    simp only [ops, hstream, bindOps, hmode, hpipe]
  | load found pipe =>
    have hopens : s.opensPipe found = t.opensPipe found := by
      rw [opensPipe, opensPipe, hstream, hrequest]
    cases pipe with
    | none => rfl
    | some pipe => simp only [ops, hstream, hopens]
  | epollAdd | epollDel | tau => simp only [ops, hpc]
  | _ => rfl

theorem unhandledAfter_of_view (h : s.view = t.view) (u : List Int) :
    s.unhandledAfter u l = t.unhandledAfter u l := by
  have hpc : s.pc = t.pc := congrArg (·.pc) h
  have hconn : s.connection = t.connection := congrArg (·.connection) h
  have hstream : s.stream = t.stream := by rw [stream, stream, hpc]
  obtain ⟨-, hpipe, -⟩ := output_of_view h t.stream
  cases l with
  | receive reads => simp only [unhandledAfter, hstream, hpipe]
  | read r =>
    cases r with
    | none => simp only [unhandledAfter, hpc, hconn]
    | some c => rfl
  | epollWait r => cases r <;> rfl
  | _ => rfl

/-- A manager that is lost closes what it has, if anything, and that does not fail. -/
theorem exec_ops_of_lost (hstep : Step E s l s') (hlost : s.pc.lost = true)
    (h : Handles Slot Int) : ∃ h', Machine.exec Handles.step h (s.ops l) = some h' := by
  have hnil : s.ops l = [] → ∃ h', Machine.exec Handles.step h (s.ops l) = some h' := by
    intro hops
    rw [hops]
    exact ⟨h, rfl⟩
  cases hstep with
  | destroyClose hpc =>
    rw [ops, if_pos (by rw [hpc])]
    exact ⟨_, rfl⟩
  | throws hl =>
    have hthrowing := (Pc.throwing_of_throws hl).1
    rw [Pc.not_throwing_of_lost hlost] at hthrowing
    cases hthrowing
  | sigterm | unlockThrow => exact hnil rfl
  | _ =>
    have hpc := ‹s.pc = _›
    first
    | (apply hnil; simp [ops, hpc]; done)
    | (rw [hpc] at hlost; cases hlost)

theorem Step.pc_of_epollWait {r : EpollResult} (h : Step E s (.epollWait r) s') :
    s.pc = .epollWait := by
  cases h with
  | throws hl =>
    unfold Pc.throws at hl
    split at hl <;> first | assumption | contradiction
  | _ => assumption

end Manager

namespace Watch

variable {E : Env} {w w' v : Watch} {ev : Event} {evs : List Event} {fd : ℕ}

/-! ### Managers that are seen as the same -/

/-- The two managers are seen as the same, and while they come back to the loop their
descriptors are the same and so are the events that are left. -/
structure Twin (w v : Watch) : Prop where
  view : w.proc.view = v.proc.view
  kernel : w.proc.mgr.pc.lost = true ∨ w.handles = v.handles ∧ w.unhandled = v.unhandled

theorem Twin.mgr (h : Twin w v) : w.proc.mgr.view = v.proc.mgr.view := congrArg Proc.mgr h.view

theorem Twin.pc (h : Twin w v) : w.proc.mgr.pc = v.proc.mgr.pc := congrArg (·.mgr.pc) h.view

theorem Twin.symm (h : Twin w v) : Twin v w where
  view := h.view.symm
  kernel := by
    rw [← h.pc]
    exact h.kernel.imp_right fun ⟨hh, hu⟩ => ⟨hh.symm, hu.symm⟩

/-- What the manager does, the other one does as well. -/
theorem Twin.proc_step (h : Twin w v) {p : Proc} (hp : w.proc.step E ev = some p) :
    ∃ q, v.proc.step E ev = some q ∧ p.view = q.view := by
  have hmap : (v.proc.step E ev).map Proc.view = some p.view := by
    rw [← Proc.view_respected.map_eq h.view ev, hp, Option.map_some]
  obtain ⟨q, hq, heq⟩ := Option.map_eq_some_iff.mp hmap
  exact ⟨q, hq, heq.symm⟩

/-- What the kernel gives to the one it can give to the other. -/
theorem Twin.gives (h : Twin w v) {l : Label} {p : Proc} (hp : w.proc.step E (.mgr l) = some p)
    (hgives : w.gives l = true) : v.gives l = true := by
  rcases h.kernel with hlost | ⟨hhandles, -⟩
  · -- a lost manager does not wait for events
    cases l with
    | epollWait r =>
      cases Proc.step_cases hp with
      | mgr _ hm =>
        have hpc : w.proc.mgr.pc = .epollWait := hm.pc_of_epollWait
        rw [hpc] at hlost
        cases hlost
    | load found pipe =>
      cases pipe with
      | none => rfl
      | some pipe => exact hgives
    | _ => exact hgives
  · have hinterest : w.interest = v.interest := congrArg Handles.interest hhandles
    cases l with
    | epollWait r =>
      cases r with
      | ready fds =>
        rw [Watch.gives, ← hinterest]
        exact hgives
      | _ => rfl
    | load found pipe =>
      cases pipe with
      | none => rfl
      | some pipe => exact hgives
    | _ => exact hgives

theorem Twin.step (h : Twin w v) (hstep : Watch.step E w ev = some w') :
    ∃ v', Watch.step E v ev = some v' ∧ Twin w' v' := by
  cases ev with
  | exit pid st =>
    obtain ⟨p, hp, rfl⟩ := Option.map_eq_some_iff.mp hstep
    obtain ⟨q, hq, hview⟩ := h.proc_step hp
    refine ⟨{ v with proc := q }, by rw [Watch.step, hq]; rfl, hview, ?_⟩
    -- the managers have not moved
    have hmgr : p.mgr = w.proc.mgr ∧ q.mgr = v.proc.mgr := by
      cases Proc.step_cases hp
      cases Proc.step_cases hq
      exact ⟨rfl, rfl⟩
    simp only [handles, hmgr.1, hmgr.2]
    exact h.kernel
  | mgr l =>
    obtain ⟨hgives, hstep⟩ := Option.ite_none_right_eq_some.mp hstep
    obtain ⟨p, hp, hstep⟩ := Option.bind_eq_some_iff.mp hstep
    obtain ⟨h', hexec, rfl⟩ := Option.map_eq_some_iff.mp hstep
    obtain ⟨q, hq, hview⟩ := h.proc_step hp
    have hgives' : v.gives l = true := h.gives hp hgives
    have hm : Manager.Step E w.proc.mgr l p.mgr := by
      cases Proc.step_cases hp
      assumption
    have hm' : Manager.Step E v.proc.mgr l q.mgr := by
      cases Proc.step_cases hq
      assumption
    rcases h.kernel with hlost | ⟨hhandles, hunhandled⟩
    · -- a lost manager stays lost, whatever it still closes
      obtain ⟨k, hk⟩ := Manager.exec_ops_of_lost hm' (h.pc ▸ hlost) v.handles
      refine ⟨_, by rw [Watch.step, if_pos hgives', hq, Option.bind_some, hk]; rfl, hview, ?_⟩
      exact Or.inl (Manager.lost_step hm hlost)
    · have hops : w.proc.mgr.ops l = v.proc.mgr.ops l := Manager.ops_of_view h.mgr
      have hexec' : Machine.exec Handles.step v.handles (v.proc.mgr.ops l) = some h' := by
        rw [← hops, ← hhandles]
        exact hexec
      refine ⟨_, by rw [Watch.step, if_pos hgives', hq, Option.bind_some, hexec']; rfl, hview, ?_⟩
      -- the variables are what the operations, the same for both, have made of them
      have hpc : p.mgr.pc = q.mgr.pc := congrArg (·.mgr.pc) hview
      rcases (Manager.step_turn hm (gives_load hgives)).var rfl hexec with hlost | hvar
      · exact Or.inl hlost
      · rcases (Manager.step_turn hm' (gives_load hgives')).var rfl hexec' with hlost | hvar'
        · exact Or.inl (hpc ▸ hlost)
        · refine Or.inr ⟨?_, ?_⟩
          · simp only [handles, ← hvar, ← hvar']
          · rw [hunhandled, Manager.unhandledAfter_of_view h.mgr]

theorem Twin.alike (h : Twin w v) : Machine.Alike (Watch.step E) w v :=
  Machine.alike_of_bisim Twin.symm Twin.step h

/-! ### The run of a fresh manager -/

/-- A step whose results the kernel can give, and whose operations are possible. -/
theorem step_mgr {l : Label} {p : Proc} {k : Handles Slot Int}
    (hp : w.proc.step E (.mgr l) = some p) (hgives : w.gives l = true)
    (hexec : Machine.exec Handles.step w.handles (w.proc.mgr.ops l) = some k) :
    w.step E (.mgr l) =
      some ⟨p, k.opened, k.interest, w.proc.mgr.unhandledAfter w.unhandled l⟩ := by
  rw [Watch.step, if_pos hgives, hp, Option.bind_some, hexec]
  rfl

/-- The label has nothing to do with descriptors. -/
def plain : Label → Bool
  | .epollCreate1 _ | .epollAdd _ _ | .epollDel _ | .epollWait _ | .load _ _ | .bind _ _
  | .receive _ | .read none | .timerfdCreate _ => false
  | _ => true

theorem step_plain {l : Label} {p : Proc} (hp : w.proc.step E (.mgr l) = some p)
    (hl : plain l = true) (hstays : w.proc.mgr.pc.lost = false) :
    w.step E (.mgr l) = some { w with proc := p } := by
  have hops : w.proc.mgr.ops l = [] := by
    cases l with
    | tau =>
      rw [Manager.ops, if_neg]
      intro hclose
      split at hclose
      · next hpc => simp [hpc, Pc.lost, Pc.leaving] at hstays
      · cases hclose
    | _ => first | rfl | cases hl
  have hgives : w.gives l = true := by cases l <;> first | rfl | cases hl
  have hunhandled : w.proc.mgr.unhandledAfter w.unhandled l = w.unhandled := by
    cases l with
    | read r =>
      cases r with
      | none => cases hl
      | some c => rfl
    | _ => first | rfl | cases hl
  have hexec : Machine.exec Handles.step w.handles (w.proc.mgr.ops l) = some w.handles := by
    rw [hops]
    rfl
  rw [step_mgr hp hgives hexec, hunhandled]
  rfl

/-- A manager that comes back to its loop in the end has not been lost before. -/
theorem not_lost_of_exec {p q : Proc} (h : Machine.exec (Proc.step E) p evs = some q)
    (hstays : q.mgr.pc.lost = false) : p.mgr.pc.lost = false := by
  by_contra hlost
  have hend : q.mgr.pc.lost = true :=
    Machine.exec_invariant (I := fun p : Proc => p.mgr.pc.lost = true)
      (fun p ev p' hp hstep => by
        cases Proc.step_cases hstep with
        | exit => exact hp
        | mgr _ hm => exact Manager.lost_step hm hp)
      (by simpa using hlost) h
  rw [hstays] at hend
  cases hend

/-- Between two changes of the descriptors the manager runs alone. -/
theorem exec_plain {ls : List Label} {p : Proc}
    (hp : Machine.exec (Proc.step E) w.proc (ls.map .mgr) = some p)
    (hls : ∀ l ∈ ls, plain l = true) (hstays : p.mgr.pc.lost = false) :
    Machine.exec (step E) w (ls.map .mgr) = some { w with proc := p } := by
  induction ls generalizing w with
  | nil =>
    obtain rfl := Option.some.inj hp
    rfl
  | cons l ls ih =>
    obtain ⟨p₁, h1, h2⟩ := Machine.exec_cons_eq_some.mp hp
    rw [List.map_cons, Machine.exec_cons,
      step_plain h1 (hls l List.mem_cons_self) (not_lost_of_exec hp hstays), Option.bind_some]
    exact ih h2 fun l' hl' => hls l' (List.mem_cons_of_mem l hl')

/-- A manager without a command; nothing but the connection is watched, and nothing is left. -/
def calm (fd : ℕ) (mgr : Manager) (hi : History) (opened : Finset Int) : Watch where
  proc := { mgr := mgr, hist := hi }
  opened := opened
  interest := {(fd : Int)}

theorem reachable_idle (inherited : Finset ℕ) {e : Int} (he : 0 ≤ e)
    (hnew : e ∉ (start fd inherited).opened) :
    Machine.Reachable (step E) (start fd inherited)
      (calm fd (Proc.waiting fd e false) {} (insert e (start fd inherited).opened)) := by
  have hne : e ≠ -1 := by omega
  have hfd : (fd : Int) ∈ (start fd inherited).opened :=
    Finset.mem_map.mpr ⟨fd, Finset.mem_insert_self fd inherited, rfl⟩
  -- the set of `epoll`
  let created : Watch :=
    { proc := { mgr := { Proc.waiting fd e false with pc := .epollAdd } }
      opened := insert e (start fd inherited).opened }
  have hcreate : step E (start fd inherited) (.mgr (.epollCreate1 e)) = some created := by
    have htake : Machine.exec Handles.step (start fd inherited).handles
        ((start fd inherited).proc.mgr.ops (.epollCreate1 e)) =
          some ⟨Function.update (start fd inherited).handles.var .epollfd (some e),
            insert e (start fd inherited).opened, ∅⟩ := by
      rw [Manager.ops, if_neg hne, Machine.exec_cons, Handles.step_take hnew]
      rfl
    have hgives : (start fd inherited).gives (.epollCreate1 e) = true :=
      decide_eq_true (by omega : -1 ≤ e)
    exact step_mgr (Proc.step_create fd hne) hgives htake
  -- and the connection in it
  have hadd : step E created (.mgr (.epollAdd fd true)) =
      some { created with
        proc := { mgr := { Proc.waiting fd e false with pc := .waitChild .loop } }
        interest := {(fd : Int)} } := by
    have hwatch : Machine.exec Handles.step created.handles
        (created.proc.mgr.ops (.epollAdd fd true)) =
          some ⟨created.handles.var, created.opened, {(fd : Int)}⟩ := by
      show Machine.exec Handles.step created.handles [.watch .connection] = _
      rw [Machine.exec_cons, Handles.step_watch (d := (fd : Int)) ?_
        (Finset.mem_insert_of_mem hfd) (Finset.notMem_empty _)]
      · rfl
      · exact descriptor_of_ne (by omega : (fd : Int) ≠ -1)
    exact step_mgr (Proc.step_add fd e) rfl hwatch
  have hidle := exec_plain (E := E)
    (w := { created with
      proc := { mgr := { Proc.waiting fd e false with pc := .waitChild .loop } }
      interest := {(fd : Int)} })
    (Proc.exec_idle fd e false {}) (by decide) rfl
  exact ⟨_, Machine.exec_cons_eq_some.mpr ⟨_, hcreate, Machine.exec_cons_eq_some.mpr
    ⟨_, hadd, hidle⟩⟩⟩

/-- A manager that waits for its first message, and has written a heartbeat or not. -/
theorem exists_idle (inherited : Finset ℕ) {e : Int} {beat : Bool} (he : 0 ≤ e)
    (hnew : e ∉ (start fd inherited).opened) (hsends : beat = true → Proc.Sends E) :
    ∃ hi, Machine.Reachable (step E) (start fd inherited)
        (calm fd (Proc.waiting fd e beat) hi (insert e (start fd inherited).opened)) ∧
      hi.received = [] ∧ hi.clones = 0 := by
  have hidle := reachable_idle (E := E) inherited he hnew
  cases beat with
  | false => exact ⟨{}, hidle, rfl, rfl⟩
  | true =>
    obtain ⟨bs, hbs, hne⟩ := hsends rfl
    refine ⟨{ sent := [Manager.synMessage] }, ?_, rfl, rfl⟩
    have htimeout := step_mgr
      (w := calm fd (Proc.waiting fd e false) {} (insert e (start fd inherited).opened))
      (l := .epollWait .timeout) (Proc.step_timeout (E := E) fd e) rfl rfl
    have hbeat := exec_plain (E := E)
      (w := { calm fd (Proc.waiting fd e false) {} (insert e (start fd inherited).opened) with
        proc := { mgr := (Proc.waiting fd e true).goto (.send Manager.synMessage .heartbeat) } })
      (Proc.exec_beat fd e hbs hne) (by simp [Proc.beatLabels, Proc.idleLabels, plain]) rfl
    exact (hidle.concat htimeout).trans ⟨_, hbeat⟩

/-- It reads the EXE and finds the command, which is that of `s`. -/
theorem exec_find (fd : ℕ) {s : Manager} (hi : History) (opened : Finset Int) {data : Bytes}
    {m : Message} {r : Request} {fs : FileSystem} (hdata : data ≠ []) (hm : E.parse data = some m)
    (hexe : m.method = .exe) (hload : E.loadRequest m.getRequest = some r)
    (hfind : findCommand fs r = (true, s.request)) :
    Machine.Reachable (step E) (calm fd (Proc.waiting fd s.epollfd s.isSyn) hi opened)
      (calm fd (Proc.loading fd s data) { hi with received := hi.received ++ [m] } opened) := by
  have hready := step_mgr (w := calm fd (Proc.waiting fd s.epollfd s.isSyn) hi opened)
    (l := .epollWait (.ready [(fd : Int)])) (Proc.step_ready (E := E) fd s.epollfd s.isSyn hi)
    (by simp [gives, calm]) rfl
  have hcollect := exec_plain (E := E)
    (w := { calm fd (Proc.waiting fd s.epollfd s.isSyn) hi opened with
      proc := { mgr := (Proc.waiting fd s.epollfd s.isSyn).goto (.dispatch [(fd : Int)])
                hist := hi }
      unhandled := [(fd : Int)] })
    (Proc.exec_collect fd s.epollfd s.isSyn hi data)
    (by simp [Proc.collectLabels, Proc.byBytes, plain]) rfl
  have hread := step_mgr (w := { calm fd (Proc.waiting fd s.epollfd s.isSyn) hi opened with
      proc := { mgr := (Proc.waiting fd s.epollfd s.isSyn).goto (.recv data [])
                hist := hi }
      unhandled := [(fd : Int)] })
    (l := .read none) (Proc.step_received fd s.epollfd s.isSyn hi hdata hm hexe hload) rfl rfl
  have hlook := exec_plain (E := E)
    (w := { calm fd (Proc.waiting fd s.epollfd s.isSyn) hi opened with
      proc :=
        { mgr := { Proc.waiting fd s.epollfd s.isSyn with
            request := r, pc := .handle .entry data [] }
          hist := { hi with received := hi.received ++ [m] } } })
    (Proc.exec_find fd { hi with received := hi.received ++ [m] } data hfind)
    (by simp [Proc.findLabels, plain]) rfl
  -- the event on the connection has been handled when the message is there
  obtain ⟨b, data, rfl⟩ := List.exists_cons_of_ne_nil hdata
  have hunhandled : ((Proc.waiting fd s.epollfd s.isSyn).goto (.recv (b :: data) [])).unhandledAfter
      [(fd : Int)] (.read none) = [] := by
    simp [Manager.unhandledAfter, Manager.goto, Proc.waiting]
  simp only [hunhandled] at hread
  exact ((((Machine.Reachable.refl _).concat hready).trans ⟨_, hcollect⟩).concat hread).trans
    ⟨_, hlook⟩

/-- The descriptors of a pipe. -/
def pipeFds : Option (Int × Int) → Finset Int
  | none => ∅
  | some (r, wr) => {r, wr}

/-- What `load` does with the pipe that it gets. -/
def pipeOps (st : CaptureStream) : Option (Int × Int) → List (Handles.Op Slot Int)
  | none => []
  | some (r, wr) => [.take (.readEnd st) r, .take (.writeEnd st) wr]

/-- A pipe that the kernel can give. -/
structure NewPipe (opened : Finset Int) (r wr : Int) : Prop where
  read : 0 ≤ r ∧ r ∉ opened
  write : 0 ≤ wr ∧ wr ∉ opened
  distinct : r ≠ wr

theorem step_load {p : Proc} {pipe : Option (Int × Int)} (st : CaptureStream)
    (hp : w.proc.step E (.mgr (.load true pipe)) = some p)
    (hops : w.proc.mgr.ops (.load true pipe) = pipeOps st pipe)
    (hnew : ∀ r wr, pipe = some (r, wr) → NewPipe w.opened r wr) :
    w.step E (.mgr (.load true pipe)) =
      some { w with proc := p, opened := w.opened ∪ pipeFds pipe } := by
  cases pipe with
  | none =>
    rw [step_mgr (k := w.handles) hp rfl rfl, pipeFds, Finset.union_empty]
    rfl
  | some pipe =>
    obtain ⟨r, wr⟩ := pipe
    obtain ⟨⟨hr, hread⟩, ⟨hwr, hwrite⟩, hne⟩ := hnew r wr rfl
    have hgives : w.gives (.load true (some (r, wr))) = true := by simp [gives, hr, hwr]
    have hexec : Machine.exec Handles.step w.handles (w.proc.mgr.ops (.load true (some (r, wr)))) =
        some ⟨Function.update (Function.update w.handles.var (.readEnd st) (some r))
          (.writeEnd st) (some wr), insert wr (insert r w.opened), w.interest⟩ := by
      have hwrite' : wr ∉ insert r w.opened := by simp [hwrite, hne.symm]
      rw [hops, pipeOps, Machine.exec_cons, Handles.step_take hread, Option.bind_some,
        Machine.exec_cons, Handles.step_take hwrite']
      rfl
    have hopened : insert wr (insert r w.opened) = w.opened ∪ pipeFds (some (r, wr)) := by
      ext d
      simp only [pipeFds, Finset.mem_insert, Finset.mem_union, Finset.mem_singleton]
      tauto
    rw [step_mgr hp hgives hexec, hopened]
    rfl

/-- `load` at its point in `handle_request`. -/
theorem ops_loadOut (s : Manager) (data : Bytes) :
    (Proc.loading fd s data).ops (.load true (s.out.pipe s.request.outmode s.request.backend)) =
      pipeOps .out (s.out.pipe s.request.outmode s.request.backend) := by
  unfold Output.pipe
  split
  · next hloads =>
    simp [Manager.ops, Manager.opensPipe, Manager.stream, Proc.loading, CaptureStream.mode,
      pipeOps, hloads]
  · rfl

theorem ops_loadErr (s : Manager) (data : Bytes) :
    (Proc.loaded fd s data).ops (.load true (s.err.pipe s.request.errmode s.request.backend)) =
      pipeOps .err (s.err.pipe s.request.errmode s.request.backend) := by
  unfold Output.pipe
  split
  · next hloads =>
    simp [Manager.ops, Manager.opensPipe, Manager.stream, Proc.loaded, Proc.loading,
      CaptureStream.mode, pipeOps, hloads]
  · rfl

/-- The descriptors of a manager that has just cloned its first command. -/
def freshFds (s : Manager) (first : Finset Int) : Finset Int :=
  insert s.epollfd first ∪ pipeFds (s.out.pipe s.request.outmode s.request.backend)
    ∪ pipeFds (s.err.pipe s.request.errmode s.request.backend)

/-- **The fresh run.** A manager can be forked for the connection that has received nothing
but the EXE and gets to its clone with the descriptors of `s`. -/
theorem exists_run {s : Manager} {data : Bytes} {m : Message} {r : Request} {fs : FileSystem}
    {pid : Int} (inherited : Finset ℕ) (hsends : s.isSyn = true → Proc.Sends E)
    (hdata : data ≠ []) (hm : E.parse data = some m) (hexe : m.method = .exe)
    (hload : E.loadRequest m.getRequest = some r) (hfind : findCommand fs r = (true, s.request))
    (hpid : 0 < pid) (hfd : s.connection = fd) (hclone : s.clonepid = pid)
    (hpc : s.pc = .handle .leaf data []) (he : 0 ≤ s.epollfd)
    (hnew : s.epollfd ∉ (start fd inherited).opened)
    (hout : ∀ r wr, s.out.pipe s.request.outmode s.request.backend = some (r, wr) →
      NewPipe (insert s.epollfd (start fd inherited).opened) r wr)
    (herr : ∀ r wr, s.err.pipe s.request.errmode s.request.backend = some (r, wr) →
      NewPipe (insert s.epollfd (start fd inherited).opened ∪
        pipeFds (s.out.pipe s.request.outmode s.request.backend)) r wr) :
    ∃ hi, Machine.Reachable (step E) (start fd inherited)
        { proc := { mgr := s.fresh, children := [(pid, .alive)], hist := hi }
          opened := freshFds s (start fd inherited).opened, interest := {(fd : Int)} } ∧
      hi.received = [m] ∧ hi.clones = 1 := by
  obtain ⟨hi, hidle, hreceived, hclones⟩ := exists_idle inherited he hnew hsends
  let hi' : History := { hi with received := hi.received ++ [m] }
  let opened := insert s.epollfd (start fd inherited).opened
  have hfound := exec_find fd hi opened hdata hm hexe hload hfind
  have hloadOut := step_load (w := calm fd (Proc.loading fd s data) hi' opened) .out
    (Proc.step_loadOut (E := E) fd s hi' data) (ops_loadOut s data) hout
  have hloadErr := step_load
    (w := calm fd (Proc.loaded fd s data) hi'
      (opened ∪ pipeFds (s.out.pipe s.request.outmode s.request.backend))) .err
    (Proc.step_loadErr (E := E) fd s hi' data) (ops_loadErr s data) herr
  have hcloned := step_plain
    (w := calm fd (Proc.cloning fd s data) hi' (freshFds s (start fd inherited).opened))
    (Proc.step_clone (E := E) fd hi' hpid hfd hclone hpc) rfl rfl
  refine ⟨{ hi' with clones := hi.clones + 1, command := some ⟨pid, data, false⟩ }, ?_, ?_, ?_⟩
  · exact (((Machine.Reachable.trans hidle hfound).concat hloadOut).concat hloadErr).concat hcloned
  · show hi.received ++ [m] = [m]
    rw [hreceived, List.nil_append]
  · show hi.clones + 1 = 1
    rw [hclones]

/-! ### What every run keeps -/

theorem proc_step (h : w.step E ev = some w') : Proc.Step E w.proc ev w'.proc := by
  cases ev with
  | mgr l =>
    obtain ⟨-, h⟩ := Option.ite_none_right_eq_some.mp h
    obtain ⟨p, hp, h⟩ := Option.bind_eq_some_iff.mp h
    obtain ⟨h', -, rfl⟩ := Option.map_eq_some_iff.mp h
    exact Proc.step_cases hp
  | exit pid st =>
    obtain ⟨p, hp, rfl⟩ := Option.map_eq_some_iff.mp h
    exact Proc.step_cases hp

theorem mgr_of_step {l : Label} (h : w.step E (.mgr l) = some w') :
    ∃ h' p, w.proc.step E (.mgr l) = some p ∧
      Machine.exec Handles.step w.handles (w.proc.mgr.ops l) = some h' ∧
      w' = ⟨p, h'.opened, h'.interest, w.proc.mgr.unhandledAfter w.unhandled l⟩ := by
  obtain ⟨-, h⟩ := Option.ite_none_right_eq_some.mp h
  obtain ⟨p, hp, h⟩ := Option.bind_eq_some_iff.mp h
  obtain ⟨h', hexec, rfl⟩ := Option.map_eq_some_iff.mp h
  exact ⟨h', p, hp, hexec, rfl⟩

/-- What the kernel gives is a descriptor. -/
theorem nonneg_of_take {l : Label} (hgives : w.gives l = true) {i : Slot} {d : Int}
    (htake : .take i d ∈ w.proc.mgr.ops l) : 0 ≤ d := by
  -- -1 is not taken
  have hnot : ∀ fd : Int, -1 ≤ fd → d = fd → fd ≠ -1 → 0 ≤ d := by omega
  cases l with
  | epollCreate1 fd | timerfdCreate fd =>
    simp only [Manager.ops] at htake
    split at htake
    · cases htake
    · next hne =>
      have hd := Handles.Op.take.inj (List.mem_singleton.mp htake)
      exact hnot fd (of_decide_eq_true hgives) hd.2 hne
  | load found pipe =>
    cases pipe with
    | none => cases htake
    | some pipe =>
      have hpipe : 0 ≤ pipe.1 ∧ 0 ≤ pipe.2 := by simpa [gives] using hgives
      simp only [Manager.ops] at htake
      split at htake
      · rcases List.mem_cons.mp htake with hr | hw
        · exact (Handles.Op.take.inj hr).2 ▸ hpipe.1
        · exact (Handles.Op.take.inj (List.mem_singleton.mp hw)).2 ▸ hpipe.2
      · cases htake
  | bind fd added =>
    simp only [Manager.ops, Manager.bindOps] at htake
    split at htake
    · cases htake
    · next hbind =>
      -- the redirect file is opened in the mode FILE only
      have hd : (w.proc.mgr.output w.proc.mgr.stream).mode = .file ∧ d = fd := by
        by_cases hfile : (w.proc.mgr.output w.proc.mgr.stream).mode = .file
        · cases added <;> simp [hfile] at htake <;> exact ⟨hfile, htake.2⟩
        · cases added <;> simp [hfile] at htake
      exact hnot fd (of_decide_eq_true hgives) hd.2 fun hfd => hbind (Or.inr ⟨hd.1, hfd⟩)
  | epollAdd | epollDel | receive | tau =>
    simp only [Manager.ops] at htake
    split at htake <;> simp at htake
  | _ => cases htake

/-- What every run of a manager on the connection `fd` keeps. Either something is watched that
it does not know, or its descriptors are in order; in the second case there is a fresh manager
for each of its clones. -/
structure Kept (E : Env) (fd : ℕ) (w : Watch) : Prop where
  nonneg : ∀ d ∈ w.opened, 0 ≤ d
  known : Damaged w ∨ Good w ∧ Proc.Placed E fd w.proc

theorem Kept.start (fd : ℕ) (inherited : Finset ℕ) : Kept E fd (start fd inherited) where
  nonneg := by
    intro d hd
    obtain ⟨n, -, rfl⟩ := Finset.mem_map.mp hd
    exact Int.natCast_nonneg n
  known := Or.inr ⟨good_start fd inherited, .start fd⟩

theorem Kept.step (h : Kept E fd w) (hstep : Watch.step E w ev = some w') : Kept E fd w' where
  nonneg := by
    intro d hd
    rcases step_cases hstep with ⟨l, h', rfl, hgives, -, hexec, hhandles, -⟩ | ⟨-, -, hhandles, -⟩
    · have hopened : w'.opened = h'.opened := congrArg Handles.opened hhandles
      rcases Handles.mem_opened_exec hexec (hopened ▸ hd) with hold | ⟨i, hi⟩
      · exact h.nonneg d hold
      · exact nonneg_of_take hgives hi
    · have hopened : w'.opened = w.opened := congrArg Handles.opened hhandles
      exact h.nonneg d (hopened ▸ hd)
  known := by
    rcases h.known with hdamaged | ⟨hgood, hplaced⟩
    · exact Or.inl (damaged_step hdamaged hstep)
    by_cases hvacant : VacantStep w ev
    · refine Or.inr ⟨good_step hgood hvacant hstep, hplaced.step (proc_step hstep) ?_ ?_⟩
      · -- the events of a batch are different ones
        intro data rest hpc
        have htended := hgood.resolve_left (by rw [hpc]; exact Bool.false_ne_true)
        have hnodup := htended.pending.nodup
        rw [Manager.batch, hpc] at hnodup
        exact (List.nodup_cons.mp hnodup).1
      · rintro found r wr rfl
        obtain ⟨hgives, -⟩ := Option.ite_none_right_eq_some.mp hstep
        exact gives_load hgives found r wr rfl
    · exact Or.inl (damaged_of_bad hgood hvacant hstep)

/-! ### The fresh manager of a clone -/

/-- `v` is a manager that has been forked for the connection `fd`, has received nothing but the
EXE that `w` handles, and has just cloned its command, as `w` has. It has the variables that
`w` would have without an earlier command, and the same descriptors are open; of these `epoll`
watches the connection. -/
structure Fresh (E : Env) (fd : ℕ) (w v : Watch) : Prop where
  run : ∃ inherited, Machine.Reachable (step E) (start fd inherited) v
  received : ∃ m, v.proc.hist.received = [m] ∧ m.method = .exe ∧
    ∀ pt data rest, w.proc.mgr.pc = .handle pt data rest → E.parse data = some m
  clones : v.proc.hist.clones = 1
  mgr : v.proc.mgr = w.proc.mgr.fresh
  children : v.proc.children = w.proc.children
  opened : v.opened = w.opened
  interest : v.interest = {w.proc.mgr.connection}
  unhandled : v.unhandled = []

/-- The descriptors that are open before the fork, where `opened` are after the clone. -/
def inheritedFds (s : Manager) (opened : Finset Int) : Finset ℕ :=
  (opened \ freshFds s {s.connection}).image Int.toNat

theorem start_inheritedFds {s : Manager} {opened : Finset Int} (hfd : s.connection = fd)
    (hnonneg : ∀ d ∈ opened, 0 ≤ d) :
    (start fd (inheritedFds s opened)).opened =
      insert (fd : Int) (opened \ freshFds s {s.connection}) := by
  ext d
  simp only [start, inheritedFds, Finset.mem_map, Finset.mem_insert, Finset.mem_image,
    Nat.castEmbedding_apply]
  constructor
  · rintro ⟨n, rfl | ⟨e, he, rfl⟩, rfl⟩
    · exact Or.inl rfl
    · rw [Int.toNat_of_nonneg (hnonneg e (Finset.mem_sdiff.mp he).1)]
      exact Or.inr he
  · rintro (rfl | hd)
    · exact ⟨fd, Or.inl rfl, rfl⟩
    · exact ⟨d.toNat, Or.inr ⟨d, hd, rfl⟩,
        Int.toNat_of_nonneg (hnonneg d (Finset.mem_sdiff.mp hd).1)⟩

/-- The variables of a manager hold what `pipe` has given. -/
theorem slot_of_pipe {s : Manager} (st : CaptureStream) {mode : OutMode} {backend : Bool}
    {r wr : Int} (hpiped : (s.output st).Piped mode backend)
    (hpipe : (s.output st).pipe mode backend = some (r, wr)) :
    s.slot (.readEnd st) = some r ∧ s.slot (.writeEnd st) = some wr := by
  unfold Output.pipe at hpipe
  split at hpipe
  · next hloads =>
    obtain ⟨h0, h1⟩ := hpiped hloads
    obtain ⟨rfl, rfl⟩ := Prod.mk.inj (Option.some.inj hpipe)
    exact ⟨descriptor_of_ne h0, descriptor_of_ne h1⟩
  · cases hpipe

theorem mem_pipeFds {r wr d : Int} : d ∈ pipeFds (some (r, wr)) ↔ d = r ∨ d = wr := by
  simp [pipeFds]

theorem mem_freshFds {s : Manager} {first : Finset Int} {d : Int} :
    d ∈ freshFds s first ↔ (d = s.epollfd ∨ d ∈ first) ∨
      d ∈ pipeFds (s.out.pipe s.request.outmode s.request.backend) ∨
        d ∈ pipeFds (s.err.pipe s.request.errmode s.request.backend) := by
  simp [freshFds, or_assoc]

theorem slot_of_mem {s : Manager} (st : CaptureStream) {mode : OutMode} {backend : Bool} {d : Int}
    (hpiped : (s.output st).Piped mode backend)
    (hd : d ∈ pipeFds ((s.output st).pipe mode backend)) :
    s.slot (.readEnd st) = some d ∨ s.slot (.writeEnd st) = some d := by
  cases hpipe : (s.output st).pipe mode backend with
  | none => simp [hpipe, pipeFds] at hd
  | some p =>
    obtain ⟨hread, hwrite⟩ := slot_of_pipe st hpiped hpipe
    rw [hpipe] at hd
    rcases mem_pipeFds.mp hd with rfl | rfl
    · exact Or.inl hread
    · exact Or.inr hwrite

section Given

variable {s : Manager} {h : Handles Slot Int}

/-- What the variables hold can be given to a fresh manager, and is then what is open. -/
theorem fresh_given (hvar : h.var = s.slot) (hh : h.Holds) (hnonneg : ∀ d ∈ h.opened, 0 ≤ d)
    (hfd : s.connection = fd) (he : s.epollfd ≠ -1)
    (hout : s.out.Piped s.request.outmode s.request.backend)
    (herr : s.err.Piped s.request.errmode s.request.backend) :
    let first := (start fd (inheritedFds s h.opened)).opened
    (0 ≤ s.epollfd ∧ s.epollfd ∉ first) ∧
      (∀ r wr, s.out.pipe s.request.outmode s.request.backend = some (r, wr) →
        NewPipe (insert s.epollfd first) r wr) ∧
      (∀ r wr, s.err.pipe s.request.errmode s.request.backend = some (r, wr) →
        NewPipe (insert s.epollfd first ∪
          pipeFds (s.out.pipe s.request.outmode s.request.backend)) r wr) ∧
      freshFds s first = h.opened := by
  intro first
  have hfirst : first = insert (fd : Int) (h.opened \ freshFds s {s.connection}) :=
    start_inheritedFds hfd hnonneg
  -- different variables hold different descriptors
  have hopened : ∀ {i d}, s.slot i = some d → d ∈ h.opened := fun hi => hh.opened (hvar ▸ hi)
  have hne : ∀ {i j d d'}, s.slot i = some d → s.slot j = some d' → i ≠ j → d ≠ d' := by
    rintro i j d _ hi hj hij rfl
    exact hij (hh.distinct (hvar ▸ hi) (hvar ▸ hj))
  have hconn : s.slot .connection = some (fd : Int) := by
    show descriptor s.connection = _
    rw [hfd]
    exact descriptor_of_ne (by omega)
  have hepoll : s.slot .epollfd = some s.epollfd := descriptor_of_ne he
  -- what the manager has opened itself was not open before
  have hnew : ∀ {i d}, s.slot i = some d → i ≠ .connection → d ∈ freshFds s {s.connection} →
      0 ≤ d ∧ d ∉ first := by
    intro i d hi hic hd
    refine ⟨hnonneg d (hopened hi), ?_⟩
    rw [hfirst, Finset.mem_insert, Finset.mem_sdiff]
    rintro (rfl | ⟨-, hnot⟩)
    · exact hne hi hconn hic rfl
    · exact hnot hd
  have hend : ∀ {i d}, s.slot i = some d → i ≠ .connection → i ≠ .epollfd →
      d ∈ freshFds s {s.connection} → 0 ≤ d ∧ d ∉ insert s.epollfd first := by
    intro i d hi hic hie hd
    obtain ⟨hpos, hnot⟩ := hnew hi hic hd
    exact ⟨hpos, by simp [hnot, hne hi hepoll hie]⟩
  refine ⟨hnew hepoll (by simp) (mem_freshFds.mpr (Or.inl (Or.inl rfl))), fun r wr hpipe => ?_,
    fun r wr hpipe => ?_, ?_⟩
  · obtain ⟨hread, hwrite⟩ := slot_of_pipe .out hout hpipe
    have hmem : ∀ d, d = r ∨ d = wr → d ∈ freshFds s {s.connection} := fun d hd =>
      mem_freshFds.mpr (Or.inr (Or.inl (hpipe ▸ mem_pipeFds.mpr hd)))
    exact ⟨hend hread (by simp) (by simp) (hmem r (Or.inl rfl)),
      hend hwrite (by simp) (by simp) (hmem wr (Or.inr rfl)), hne hread hwrite (by simp)⟩
  · obtain ⟨hread, hwrite⟩ := slot_of_pipe .err herr hpipe
    have hmem : ∀ d, d = r ∨ d = wr → d ∈ freshFds s {s.connection} := fun d hd =>
      mem_freshFds.mpr (Or.inr (Or.inr (hpipe ▸ mem_pipeFds.mpr hd)))
    -- the descriptors of the first pipe are others
    have hother : ∀ {i d}, s.slot i = some d → i ≠ .readEnd .out → i ≠ .writeEnd .out →
        d ∉ pipeFds (s.out.pipe s.request.outmode s.request.backend) := fun hi hr hw hd =>
      (slot_of_mem .out hout hd).elim (fun hj => hne hi hj hr rfl) fun hj =>
        hne hi hj hw rfl
    obtain ⟨hr, hr'⟩ := hend hread (by simp) (by simp) (hmem r (Or.inl rfl))
    obtain ⟨hw, hw'⟩ := hend hwrite (by simp) (by simp) (hmem wr (Or.inr rfl))
    refine ⟨⟨hr, ?_⟩, ⟨hw, ?_⟩, hne hread hwrite (by simp)⟩
    · rw [Finset.mem_union, not_or]
      exact ⟨hr', hother hread (by simp) (by simp)⟩
    · rw [Finset.mem_union, not_or]
      exact ⟨hw', hother hwrite (by simp) (by simp)⟩
  · have hsub : freshFds s {s.connection} ⊆ h.opened := by
      intro d hd
      rcases mem_freshFds.mp hd with (rfl | hd) | hd | hd
      · exact hopened hepoll
      · rw [Finset.mem_singleton.mp hd, hfd]
        exact hopened hconn
      · exact (slot_of_mem .out hout hd).elim hopened hopened
      · exact (slot_of_mem .err herr hd).elim hopened hopened
    calc freshFds s first = freshFds s {s.connection} ∪ (h.opened \ freshFds s {s.connection}) := by
          rw [hfirst]
          ext d
          simp only [freshFds, hfd, Finset.mem_union, Finset.mem_insert, Finset.mem_singleton]
          tauto
      _ = h.opened := Finset.union_sdiff_of_subset hsub

end Given

/-- Nothing of an earlier command is left in the variables when a command is cloned on the
open connection, and nothing but the connection is watched. -/
def CleanClone (w : Watch) (ev : Event) : Prop :=
  Proc.clones ev = true → w.proc.mgr.connection ≠ -1 →
    w.proc.mgr.unused = true ∧ w.interest = {w.proc.mgr.connection}

instance (w : Watch) (ev : Event) : Decidable (CleanClone w ev) :=
  inferInstanceAs (Decidable (_ → _ → _))

/-- A command that is cloned on the open connection is served as by a fresh manager. -/
def ServedFresh (E : Env) (fd : ℕ) (w : Watch) (ev : Event) : Prop :=
  Proc.clones ev = true → w.proc.mgr.connection ≠ -1 →
    ∀ w', w.step E ev = some w' → ∃ v, Fresh E fd w' v ∧ Machine.Alike (step E) w' v

/-- Where nothing but the connection is watched, the manager knows what is watched. -/
theorem Kept.tended (h : Kept E fd w) (hpc : w.proc.mgr.pc.lost = false)
    (hopen : w.proc.mgr.connection ≠ -1) (hinterest : w.interest = {w.proc.mgr.connection}) :
    w.proc.mgr.Tended w.handles w.unhandled ∧ Proc.Placed E fd w.proc := by
  have hstays : ¬ w.proc.mgr.pc.lost = true := by simp [hpc]
  rcases h.known with hdamaged | ⟨hgood, hplaced⟩
  · -- the orphan would be the connection
    obtain ⟨d, ho⟩ := hdamaged.resolve_left hstays
    have hd : d ∈ w.interest := ho.watched
    rw [hinterest, Finset.mem_singleton] at hd
    exact absurd (hd ▸ descriptor_of_ne hopen) (ho.lost .connection)
  · exact ⟨hgood.resolve_left hstays, hplaced⟩

/-- A fresh manager holds what a manager whose variables are unused holds. -/
theorem slot_fresh {s : Manager} (h : s.unused = true) : s.fresh.slot = s.slot := by
  simp only [Manager.unused, Bool.and_eq_true, decide_eq_true_eq] at h
  obtain ⟨⟨⟨-, hout⟩, herr⟩, htimer⟩ := h
  obtain ⟨hread, hwrite, hredirect⟩ := Output.fds_fresh s.request.outfile hout
  obtain ⟨hread', hwrite', hredirect'⟩ := Output.fds_fresh s.request.errfile herr
  funext i
  refine congrArg descriptor ?_
  cases i with
  | connection | epollfd => rfl
  | timerfd => exact htimer.symm
  | readEnd st =>
    cases st with
    | out => exact hread
    | err => exact hread'
  | writeEnd st =>
    cases st with
    | out => exact hwrite
    | err => exact hwrite'
  | redirect st =>
    cases st with
    | out => exact hredirect
    | err => exact hredirect'

/-- The two are seen as the same where nothing is left. -/
theorem Fresh.twin (h : Fresh E fd w v) (hview : w.proc.mgr.view = w.proc.mgr.fresh.view)
    (hunused : w.proc.mgr.unused = true) (hinterest : w.interest = {w.proc.mgr.connection})
    (hunhandled : w.unhandled = []) : Twin w v where
  view := by rw [Proc.view, Proc.view, h.mgr, h.children, hview]
  kernel := by
    refine Or.inr ⟨?_, hunhandled.trans h.unhandled.symm⟩
    rw [handles, handles, h.mgr, slot_fresh hunused, h.opened, h.interest, hinterest]

/-- A manager whose clone is clean has a fresh one beside it, and the two are seen as the
same. -/
theorem Kept.exists_fresh (h : Kept E fd w) {pid : Int} (hpid : pid ≠ -1)
    (hopen : w.proc.mgr.connection ≠ -1) (hunused : w.proc.mgr.unused = true)
    (hinterest : w.interest = {w.proc.mgr.connection})
    (hstep : Watch.step E w (.mgr (.clone pid)) = some w') : ∃ v, Fresh E fd w' v ∧ Twin w' v := by
  obtain ⟨h', p, hp, hexec, rfl⟩ := mgr_of_step hstep
  obtain rfl := Option.some.inj hexec
  cases Proc.step_cases hp with
  | mgr hadm hm =>
    cases hm with
    | throws hl => cases (Pc.throwing_of_throws hl).2
    | cloneFail => exact absurd rfl hpid
    | @clone data rest _ hpc =>
      obtain ⟨htended, hplaced⟩ := h.tended (by rw [hpc]; rfl) hopen hinterest
      obtain ⟨⟨⟨r, fs, ⟨hdata, m, hm, hexe, hload⟩, hfind⟩, -, ⟨-, hout⟩, -, herr⟩, hrest⟩ :
        (Manager.Finds E data _ ∧ _) ∧ _ := hplaced.prepared.at_point hpc
      -- no event is left: it would be on the connection, and that has been read
      have hbatch : w.proc.mgr.batch = rest := by rw [Manager.batch, hpc]; rfl
      obtain rfl : rest = [] := by
        refine List.eq_nil_iff_forall_not_mem.mpr fun d hd => ?_
        have hconn : d ∈ w.interest := htended.pending.known d (hbatch ▸ hd)
        rw [hinterest, Finset.mem_singleton] at hconn
        exact hrest rfl (hconn ▸ hd)
      have hpos : 0 < pid ∧ pid ∉ w.proc.pids := by simpa [Proc.admits, hpid] using hadm
      have hidle : w.proc.children = [] :=
        hplaced.core.idle (hplaced.core.quiet (Or.inr (by rw [hpc]; rfl)))
      have hfd : w.proc.mgr.connection = fd := hplaced.connection.resolve_right hopen
      have hsends : w.proc.mgr.isSyn = true → Proc.Sends E := fun hs =>
        (hplaced.beaten hs (by rw [hpc]; rfl)).resolve_left (by rw [hpc]; simp)
      have hepoll := hplaced.epollfd (by rw [hpc]; rfl) (by rw [hpc]; simp)
      -- what the kernel has given to this manager it can give to a fresh one
      obtain ⟨⟨he, henew⟩, hgout, hgerr, hopened⟩ :=
        fresh_given htended.var htended.holds h.nonneg hfd hepoll hout herr
      obtain ⟨hi, hrun, hreceived, hclones⟩ := exists_run
        (s := { w.proc.mgr with
          clonepid := pid, childStatus := .procRunning, pc := .handle .leaf data [] })
        _ hsends hdata hm hexe hload hfind hpos.1 hfd rfl rfl he henew hgout hgerr
      have hview := hplaced.view_eq hpid hunused hp
      have hunhandled : w.unhandled = [] := htended.pending.handled.trans hbatch
      have hchildren : w.proc.childrenAfter (.clone pid) = [(pid, .alive)] := by
        simp [Proc.childrenAfter, hpid, hidle]
      refine Exists.imp (fun v hv => ⟨hv, hv.twin hview hunused hinterest hunhandled⟩) ?_
      exact ⟨_, ⟨_, hrun⟩, ⟨m, hreceived, hexe, fun pt data' rest' hpc' => by cases hpc'; exact hm⟩,
        hclones, rfl, hchildren.symm, hopened,
        congrArg (fun d : Int => ({d} : Finset Int)) hfd.symm, rfl⟩

/-- **Commands do not leak into each other** in the runs in which nothing of an earlier
command is left at any clone: every command is served as by a manager that has just been
forked and has received nothing but its EXE, by the manager and by the kernel. -/
theorem served_fresh {inherited : Finset ℕ}
    (h : Machine.StepsMeet (step E) CleanClone (start fd inherited) evs) :
    Machine.StepsMeet (step E) (ServedFresh E fd) (start fd inherited) evs := by
  refine Machine.StepsMeet.imp (fun _ _ _ hi hs => hi.step hs) ?_ (Kept.start fd inherited) h
  intro w ev hkept hclean hclones hopen w' hstep
  obtain ⟨hunused, hinterest⟩ := hclean hclones hopen
  obtain ⟨pid, rfl, hpid⟩ : ∃ pid, ev = .mgr (.clone pid) ∧ pid ≠ -1 := by
    unfold Proc.clones at hclones
    split at hclones
    · exact ⟨_, rfl, by simpa using hclones⟩
    · cases hclones
  obtain ⟨v, hv, htwin⟩ := hkept.exists_fresh hpid hopen hunused hinterest hstep
  exact ⟨v, hv, htwin.alike⟩

/-- The encoding of an EXE message for `/bin/ls` as a backend command without timeout. -/
def untimedData : Chunk where
  bytes := [0x1a, 22, 0x0a, 7, 0x2f, 0x62, 0x69, 0x6e, 0x2f, 0x6c, 0x73,
    0x18, 255, 255, 255, 255, 255, 255, 255, 255, 255, 1, 0x58, 1]
  pos := by decide
  le := by decide

/-- It is served and reaped, and a second one is cloned on the same connection. -/
def untimedTwice : List Event :=
  (Proc.bootLabels ++ Proc.receiveLabels untimedData ++
    [Label.tau, .lookup (some fun _ => .file), .load true none, .load true none, .clone 100,
      .createLeaf 100 true, .writeCgroup 100 .memlimit "100M" .complete,
      .memswExists 100 (some false), .writeCgroup 100 .procs "100" .complete,
      .writeCgroup 100 .notify "1" .complete, .flock .ex, .regCreate 100 true,
      .regWrite 100 untimedData.bytes .complete, .flock .un, .bind (-1) true, .bind (-1) true,
      .tau, .tau, .write [0x12, 0] (.wrote 2)] ++ Proc.loopLabels).map .mgr ++
    Proc.lsEndEvents (.exited 0) ++
      ([Label.tau, .tau] ++ Proc.againLabels untimedData).map .mgr

theorem served_fresh_untimed :
    (Machine.exec (step Proto3.env) (start 5 ∅) untimedTwice).any
        (fun w => w.proc.hist.clones == 2) = true ∧
      Machine.StepsMeet (step Proto3.env) (ServedFresh Proto3.env 5) (start 5 ∅) untimedTwice :=
  ⟨by decide +kernel, served_fresh (by decide +kernel)⟩

/-- What tells the manager from a fresh one: it goes on without sending a result. -/
def goesOn (w : Watch) : Bool :=
  (Machine.exec (step Proto3.env) w Proc.foregroundEnd).isSome &&
    (Machine.exec (step Proto3.env)
      { proc := { mgr := w.proc.mgr.fresh, children := w.proc.children }
        opened := w.opened, interest := {w.proc.mgr.connection} } Proc.foregroundEnd).isNone

/-- The second foreground command on a connection is not served as by a fresh manager. -/
theorem not_served_fresh :
    ∃ w, Machine.exec (step Proto3.env) (start 5 ∅) Proc.foregroundTwice = some w ∧
      w.proc.hist.answered = 1 ∧ ¬ ServedFresh Proto3.env 5 w (.mgr (.clone 101)) := by
  obtain ⟨w, hrun, hw⟩ := Machine.exec_of_any
    (show (Machine.exec (step Proto3.env) (start 5 ∅) Proc.foregroundTwice).any
      (fun w => w.proc.hist.answered == 1 && w.proc.mgr.connection != -1 &&
        (step Proto3.env w (.mgr (.clone 101))).any goesOn) = true by decide +kernel)
  simp only [Bool.and_eq_true, Option.any_eq_true, beq_iff_eq, bne_iff_ne] at hw
  obtain ⟨⟨hanswered, hopen⟩, w', hstep, hgoes⟩ := hw
  refine ⟨w, hrun, hanswered, fun hserved => ?_⟩
  obtain ⟨v, hv, halike⟩ := hserved rfl hopen w' hstep
  obtain ⟨hsome, hnone⟩ := (Bool.and_eq_true_iff.mp hgoes)
  -- the fresh manager in question and the one that has been run differ in their history only
  have htwin : Twin v { proc := { mgr := w'.proc.mgr.fresh, children := w'.proc.children }
                        opened := w'.opened, interest := {w'.proc.mgr.connection} } := by
    refine ⟨by rw [Proc.view, Proc.view, hv.mgr, hv.children], Or.inr ⟨?_, hv.unhandled⟩⟩
    rw [handles, handles, hv.mgr, hv.opened, hv.interest]
  have hend := halike Proc.foregroundEnd
  rw [hsome, htwin.alike Proc.foregroundEnd, Option.isSome_eq_false_iff.mpr hnone] at hend
  cases hend

end Watch

end Srun
