import Srun.Framework.Observer
import Srun.Sys

/-!
# What a LIST and a STOP do

The two branches of `recv_message` that go through the registry, among the other managers.
What is seen of a manager is what its code does, and where the code looks into the registry,
what the registry has at that moment. Everything follows from `Due.of_leadsTo`: what is to be
seen on the way to the answer can be told from the answer backwards, one step of the code at a
time, since the other managers do not move this one (`step_at`).

`lists_each` says what a LIST has done when it answers, and `stops_each` what a STOP has.
A LIST is no snapshot: each of its entries tells what its file held when it was read. A STOP
leaves no pid of its list out, and signals none that was not registered when its turn came.
-/

namespace Srun

/-- A manager that ends does so for good: from a point of its ending no step, of the code or of
the signal handler, leads back to serving. -/
theorem Manager.Step.ending {E : Env} {s s' : Manager} {l : Label} (hstep : Manager.Step E s l s')
    (h : s.pc.ending = true) : s'.pc.ending = true := by
  cases hstep with
  | sigterm => exact h
  | throws | unlockThrow => rfl
  -- what `waitpid` returns to is kept with the point
  | @waitNone k hpc =>
    rw [hpc] at h
    exact WaitRet.ending_pc h
  | waitOther => exact h
  | reap hpc =>
    rw [hpc] at h
    exact Manager.reaped_pc h h h
  | argsSurvive hpc =>
    rw [hpc] at h
    exact Manager.clearEntry_pc h h
  | _ =>
    rw [‹s.pc = _›] at h
    first
      | rfl
      | exact h
      | cases h

/-- The code of a manager, without its signal handler. -/
theorem Manager.step_code {E : Env} {s s' : Manager} {l : Label}
    (h : Manager.step E s l = some s') :
    (∃ trusted, l = .sigterm trusted) ∧ s'.pc = s.pc ∨
      (∀ trusted, l ≠ .sigterm trusted) ∧ codeStep E s l = some s' := by
  cases l with
  | sigterm trusted =>
    obtain ⟨-, h⟩ := Option.ite_none_left_eq_some.mp h
    exact Or.inl ⟨⟨trusted, rfl⟩, by rw [← Option.some.inj h]⟩
  | _ => exact Or.inr ⟨fun trusted => (by intro h; cases h), h⟩

namespace Sys

variable {E : Env} {s s' : Sys} {ev : SysEvent} {i : ℕ} {p : Proc}

/-- A step of the system is one of the manager `i`, or leaves it where it is. The ends of its
children change its `Proc`, but nothing that its code has. -/
theorem step_at (hi : s.procs[i]? = some p) (hstep : s.step E ev = some s') :
    (∃ l p', ev = .proc i (.mgr l) ∧ s.admits (.mgr l) = true ∧
        Manager.step E p.mgr l = some p'.mgr ∧ s'.procs[i]? = some p') ∨
      (∀ l, ev ≠ .proc i (.mgr l)) ∧ ∃ p', s'.procs[i]? = some p' ∧ p'.mgr = p.mgr := by
  have hlt : i < s.procs.length := (List.getElem?_eq_some_iff.mp hi).1
  cases ev with
  | fork fd pid =>
    obtain ⟨-, hstep⟩ := Option.ite_none_right_eq_some.mp hstep
    cases hstep
    exact Or.inr ⟨fun l => (by intro h; cases h), p,
      (List.getElem?_append_left hlt).trans hi, rfl⟩
  | spawn pid =>
    obtain ⟨-, hstep⟩ := Option.ite_none_right_eq_some.mp hstep
    cases hstep
    exact Or.inr ⟨fun l => (by intro h; cases h), p, hi, rfl⟩
  | vanish pid =>
    obtain ⟨-, hstep⟩ := Option.ite_none_left_eq_some.mp hstep
    cases hstep
    exact Or.inr ⟨fun l => (by intro h; cases h), p, hi, rfl⟩
  -- the end of a child, or of an orphan, is no step of the code
  | orphan j pid st =>
    refine Or.inr ⟨fun l => (by intro h; cases h), ?_⟩
    obtain ⟨q, hj, hstep⟩ := Option.bind_eq_some_iff.mp hstep
    split at hstep
    · cases hstep
      by_cases hij : i = j
      · subst hij
        cases hi.symm.trans hj
        exact ⟨_, List.getElem?_set_self hlt, rfl⟩
      · exact ⟨p, (List.getElem?_set_ne (Ne.symm hij)).trans hi, rfl⟩
    · cases hstep
  | proc j e =>
    obtain ⟨q, hj, hstep⟩ := Option.bind_eq_some_iff.mp hstep
    split at hstep
    · next hadm =>
      obtain ⟨q', hq, rfl⟩ := Option.map_eq_some_iff.mp hstep
      by_cases hij : i = j
      · subst hij
        cases hi.symm.trans hj
        have hset : (s.procs.set i q')[i]? = some q' := List.getElem?_set_self hlt
        cases e with
        | mgr l => exact Or.inl ⟨l, q', rfl, hadm, Proc.step_manager hq, hset⟩
        | exit pid st =>
          refine Or.inr ⟨fun l => (by intro h; cases h), q', hset, ?_⟩
          obtain ⟨-, hq⟩ := Option.ite_none_right_eq_some.mp hq
          cases hq
          rfl
      -- another manager
      · refine Or.inr ⟨fun l h => hij ?_, p, (List.getElem?_set_ne (Ne.symm hij)).trans hi, rfl⟩
        cases h
        rfl
    · cases hstep

/-! ### What is seen of a manager -/

/-- A step of the code, with what the registry has in the place of what has been found. -/
def witnessed (s : Sys) : Label → Label
  | .regExists pid (some _) => .regExists pid (some (s.registry pid).isSome)
  | .readEntry pid (some (_, since)) => .readEntry pid ((s.registry pid).map (·, since))
  | l => l

/-- What is seen of the manager `i`: not the signals that reach it. -/
def seen (i : ℕ) (s : Sys) : SysEvent → Option Label
  | .proc _ (.mgr (.sigterm _)) => none
  | .proc j (.mgr l) => if j = i then some (s.witnessed l) else none
  | _ => none

/-- The manager `i` stands at a point of `T`. -/
def At (i : ℕ) (T : Pc → Prop) (s : Sys) : Prop := ∃ p, s.procs[i]? = some p ∧ T p.mgr.pc

instance (i : ℕ) (T : Pc → Prop) [DecidablePred T] : DecidablePred (At i T) := fun s =>
  decidable_of_iff ((s.procs[i]?).any (fun p => decide (T p.mgr.pc)) = true)
    (by simp [At, Option.any_eq_true])

/-- What the code finds is what the registry has. -/
theorem witnessed_eq {l : Label} (hadm : s.admits (.mgr l) = true) : s.witnessed l = l := by
  unfold witnessed
  split
  · next pid b => simpa [admits] using hadm
  · next pid data since =>
    have hdata : s.registry pid = some data := of_decide_eq_true hadm
    rw [hdata]
    rfl
  · rfl

theorem seen_code {l : Label} (hadm : s.admits (.mgr l) = true)
    (hterm : ∀ trusted, l ≠ .sigterm trusted) : seen i s (.proc i (.mgr l)) = some l := by
  cases l with
  | sigterm trusted => exact (hterm trusted rfl).elim
  | _ => exact (if_pos rfl).trans (congrArg some (witnessed_eq hadm))

theorem seen_other (h : ∀ l, ev ≠ .proc i (.mgr l)) : seen i s ev = none := by
  unfold seen
  split
  · rfl
  · next j l hl =>
    rw [if_neg]
    rintro rfl
    exact h l rfl
  · rfl

/-- What is to be seen from `pc` on, up to the first point of `T`, which is `last`. `Branch` says
it for the points of one branch of `recv_message`; at `T` nothing is due. -/
structure Due (T : Pc → Prop) (Branch : Pc → List Label → Pc → Prop) (pc : Pc)
    (ls : List Label) (last : Pc) : Prop where
  reached : T pc → ls = [] ∧ last = pc
  lasts : pc.ending = false
  branch : Branch pc ls last

/-- **What a branch does up to its answer.** If `Branch` holds at the answer and goes from the
point after a step of the code to the point before it, then it holds of what is seen of the
manager in every run of the system up to the answer. -/
theorem Due.of_leadsTo {T : Pc → Prop} {Branch : Pc → List Label → Pc → Prop}
    {evs : List SysEvent}
    (hlasts : ∀ pc, T pc → pc.ending = false) (hend : ∀ pc, T pc → Branch pc [] pc)
    (hcode : ∀ m m' l ls last, Manager.codeStep E m l = some m' → Due T Branch m'.pc ls last →
      Branch m.pc (l :: ls) last)
    (hi : s.procs[i]? = some p) (h : Machine.LeadsTo (step E) (At i T) s evs) :
    ∃ t q, Machine.exec (step E) s evs = some t ∧ t.procs[i]? = some q ∧
      Due T Branch p.mgr.pc (Machine.trace (step E) (seen i) s evs) q.mgr.pc := by
  -- at the answer itself
  have hreached : ∀ s, At i T s → ∀ p, s.procs[i]? = some p →
      ∃ q, s.procs[i]? = some q ∧ Due T Branch p.mgr.pc [] q.mgr.pc := by
    rintro s ⟨q, hq, hT⟩ p hi
    cases hi.symm.trans hq
    exact ⟨q, hi, fun _ => ⟨rfl, rfl⟩, hlasts _ hT, hend _ hT⟩
  -- one step before: this manager's, or another's, which is not seen
  have hback : ∀ (s : Sys) (ev : SysEvent) (s' : Sys) (ls : List Label) (t : Sys), ¬ At i T s →
      s.step E ev = some s' →
      (∀ p, s'.procs[i]? = some p →
        ∃ q, t.procs[i]? = some q ∧ Due T Branch p.mgr.pc ls q.mgr.pc) →
      ∀ p, s.procs[i]? = some p → ∃ q, t.procs[i]? = some q ∧
        Due T Branch p.mgr.pc ((seen i s ev).toList ++ ls) q.mgr.pc := by
    intro s ev s' ls t hT hstep h p hi
    obtain ⟨l, p', rfl, hadm, hl, hi'⟩ | ⟨hev, p', hi', hp'⟩ := step_at hi hstep
    · obtain ⟨q, hq, hdue⟩ := h p' hi'
      refine ⟨q, hq, fun hpc => (hT ⟨p, hi, hpc⟩).elim, ?_, ?_⟩
      -- who ends does not come to the answer
      · refine Bool.eq_false_iff.mpr fun hend => ?_
        have hend' := Manager.Step.ending (Manager.step_cases hl) hend
        exact Bool.false_ne_true (hdue.lasts.symm.trans hend')
      · obtain ⟨⟨trusted, rfl⟩, hpc⟩ | ⟨hterm, hl⟩ := Manager.step_code hl
        · -- the handler leaves the code where it is
          exact hpc ▸ hdue.branch
        · rw [seen_code hadm hterm]
          exact hcode _ _ l ls _ hl hdue
    · obtain ⟨q, hq, hdue⟩ := h p' hi'
      rw [seen_other hev, ← hp']
      exact ⟨q, hq, hdue⟩
  obtain ⟨t, hrun, hdue⟩ := Machine.LeadsTo.trace hreached hback h
  obtain ⟨q, hq, hdue⟩ := hdue p hi
  exact ⟨t, q, hrun, hq, hdue⟩

/-! ### LIST -/

/-- A registry file as LIST has read it: the pid of its name, its bytes and the time of its last
change, all at one moment. -/
structure FileRead where
  pid : Int
  data : Bytes
  since : Int64

/-- The entry tells the request of the message in the file. -/
def FileRead.Shown (E : Env) (r : FileRead) (e : Runproc) : Prop :=
  ∃ m, E.parse r.data = some m ∧ e = Manager.runprocOf r.pid r.since m

/-- The directory gives the files one after the other, and each is read. -/
def readSteps (reads : List FileRead) : List Label :=
  reads.flatMap fun r => [.readdir (.entry r.pid), .readEntry r.pid (some (r.data, r.since))]

/-- What is seen from a point of the LIST branch to the answer `runlist`, of which `acc` has been
collected. -/
def ListDue (E : Env) (runlist : List Runproc) :
    ListPoint → List Runproc → List Label → Prop
  | .lock, acc, ls => ∃ reads news, List.Forall₂ (FileRead.Shown E) reads news ∧
      runlist = acc ++ news ∧ ls = .flock .sh :: (readSteps reads ++ [.readdir .done, .flock .un])
  | .next, acc, ls => ∃ reads news, List.Forall₂ (FileRead.Shown E) reads news ∧
      runlist = acc ++ news ∧ ls = readSteps reads ++ [.readdir .done, .flock .un]
  | .read pid, acc, ls => ∃ r reads news, r.pid = pid ∧
      List.Forall₂ (FileRead.Shown E) (r :: reads) news ∧ runlist = acc ++ news ∧
      ls = .readEntry pid (some (r.data, r.since)) ::
        (readSteps reads ++ [.readdir .done, .flock .un])
  | .unlock, acc, ls => runlist = acc ∧ ls = [.flock .un]
  | .unlockThrow, _, _ => False

/-- The entries of the message that is being sent. -/
def sentRunlist : Pc → List Runproc
  | .send m _ => m.runlist
  | _ => []

/-- LIST answers. -/
def Lists (batch : List Int) (pc : Pc) : Prop :=
  pc = .send (Manager.listMessage (sentRunlist pc)) (.reply batch)

instance (batch : List Int) : DecidablePred (Lists batch) := fun _ =>
  inferInstanceAs (Decidable (_ = _))

/-- What is due at the LIST branch. -/
def ListBranch (E : Env) (batch : List Int) (pc : Pc) (ls : List Label) (last : Pc) : Prop :=
  ∀ point acc, pc = .list point acc batch →
    Lists batch last ∧ ListDue E (sentRunlist last) point acc ls

/-- A step of the LIST branch is the first of what is due. A file that cannot be read or parsed
leads to the end of the manager, which is no way to the answer. -/
theorem ListBranch.code {batch : List Int} {m m' : Manager} {l : Label} {ls : List Label}
    {last : Pc} (hstep : Manager.codeStep E m l = some m')
    (h : Due (Lists batch) (ListBranch E batch) m'.pc ls last) :
    ListBranch E batch m.pc (l :: ls) last := by
  intro point acc hpc
  have hbranch : Manager.listBranch E m acc batch point l = some m' := by
    rw [← hstep, Manager.codeStep, hpc]
  unfold Manager.listBranch at hbranch
  split at hbranch
  · -- the shared lock
    cases hbranch
    obtain ⟨hlast, reads, news, hshown, hlist, rfl⟩ := h.branch .next acc rfl
    exact ⟨hlast, reads, news, hshown, hlist, rfl⟩
  · next pid =>
    -- the directory has a file more, or it has none
    cases hbranch
    obtain ⟨hlast, r, reads, news, rfl, hshown, hlist, rfl⟩ := h.branch (.read pid) acc rfl
    exact ⟨hlast, r :: reads, news, hshown, hlist, rfl⟩
  · cases hbranch
    obtain ⟨hlast, hlist, rfl⟩ := h.branch .unlock acc rfl
    exact ⟨hlast, [], [], .nil, (List.append_nil acc).symm ▸ hlist, rfl⟩
  · cases hbranch
    obtain ⟨-, hfalse⟩ := h.branch .unlockThrow acc rfl
    exact hfalse.elim
  · next _ pid r =>
    split at hbranch
    · next heq =>
      subst heq
      split at hbranch
      · cases hbranch
        obtain ⟨-, hfalse⟩ := h.branch .unlockThrow acc rfl
        exact hfalse.elim
      · next data since =>
        split at hbranch
        · cases hbranch
          obtain ⟨-, hfalse⟩ := h.branch .unlockThrow acc rfl
          exact hfalse.elim
        · next msg hmsg =>
          -- the entry goes behind the others
          cases hbranch
          obtain ⟨hlast, reads, news, hshown, hlist, rfl⟩ :=
            h.branch .next (acc ++ [Manager.runprocOf pid since msg]) rfl
          rw [List.append_assoc] at hlist
          exact ⟨hlast, ⟨pid, data, since⟩, reads, _, rfl,
            .cons ⟨msg, hmsg, rfl⟩ hshown, hlist, rfl⟩
    · cases hbranch
  · -- the unlock, and the answer
    cases hbranch
    obtain ⟨rfl, rfl⟩ := h.reached rfl
    exact ⟨rfl, rfl, rfl⟩
  · cases hbranch
    cases h.lasts
  · cases hbranch

/-- **LIST tells what each file held when it was read.** From the lock to the answer a manager
does what is in `readSteps` and nothing else: it reads each file that the directory gives, in
this order. The answer has one entry for each of them, with the request of the message that the
registry held at the moment of the read, whatever the other managers do meanwhile. -/
theorem lists_each {batch : List Int} {evs : List SysEvent} (hi : s.procs[i]? = some p)
    (hpc : p.mgr.pc = .list .lock [] batch)
    (h : Machine.LeadsTo (step E) (At i (Lists batch)) s evs) :
    ∃ t q reads runlist, Machine.exec (step E) s evs = some t ∧ t.procs[i]? = some q ∧
      q.mgr.pc = .send (Manager.listMessage runlist) (.reply batch) ∧
      List.Forall₂ (FileRead.Shown E) reads runlist ∧
      Machine.trace (step E) (seen i) s evs =
        .flock .sh :: (readSteps reads ++ [.readdir .done, .flock .un]) := by
  have hend : ∀ pc, Lists batch pc → ListBranch E batch pc [] pc := by
    intro pc hT point acc hlist
    cases hT.symm.trans hlist
  obtain ⟨t, q, hrun, hq, hdue⟩ := Due.of_leadsTo
    (fun pc hT => (by rw [hT]; rfl)) hend
    (fun m m' l ls last => ListBranch.code) hi h
  obtain ⟨hlast, reads, news, hshown, hlist, htrace⟩ := hdue.branch .lock [] hpc
  rw [List.nil_append] at hlist
  exact ⟨t, q, reads, _, hrun, hq, hlast, hlist ▸ hshown, htrace⟩

/-- `/bin/ls`, process 100, ends while a LIST is about to read its file. -/
theorem lists_each_ls : ∃ s reads,
    Machine.exec (step Proto3.env) start
      (.fork 5 50 :: steps 0 Proc.lsLabels ++ .fork 5 51 ::
        steps 1 (Proc.bootLabels ++ Proc.receiveLabels Proc.listData)) = some s ∧
    Machine.trace (step Proto3.env) (seen 1) s
      (steps 1 [.flock .sh, .readdir (.entry 100)] ++ .proc 0 (.exit 100 (.exited 0)) ::
        steps 1 [.readEntry 100 (some (Proc.lsData.bytes, 7)), .readdir .done, .flock .un]) =
      .flock .sh :: (readSteps reads ++ [.readdir .done, .flock .un]) := by
  obtain ⟨s, hrun, hs⟩ := Machine.exec_of_any
    (show (Machine.exec (step Proto3.env) start
      (.fork 5 50 :: steps 0 Proc.lsLabels ++ .fork 5 51 ::
        steps 1 (Proc.bootLabels ++ Proc.receiveLabels Proc.listData))).any
      (fun s => (s.procs[1]?.any fun p => p.mgr.pc == .list .lock [] []) &&
        decide (Machine.LeadsTo (step Proto3.env) (At 1 (Lists [])) s
          (steps 1 [.flock .sh, .readdir (.entry 100)] ++ .proc 0 (.exit 100 (.exited 0)) ::
            steps 1 [.readEntry 100 (some (Proc.lsData.bytes, 7)), .readdir .done,
              .flock .un]))) = true by decide +kernel)
  simp only [Bool.and_eq_true, Option.any_eq_true, beq_iff_eq, decide_eq_true_eq] at hs
  obtain ⟨⟨p, hp, hpc⟩, hleads⟩ := hs
  obtain ⟨-, -, reads, -, -, -, -, -, htrace⟩ := lists_each hp hpc hleads
  exact ⟨s, reads, hrun, htrace⟩

/-! ### STOP -/

/-- What is left to be done for a pid, by where the manager is; `registered` is what it finds
or has found. The signal goes out under the lock, before the file can be removed. -/
def stopRest (pid : Int) (registered : Bool) : StopPoint → List Label
  | .next => .tau :: .flock .sh :: .regExists pid (some registered) ::
      (if registered then [.kill pid, .flock .un] else [.flock .un])
  | .lock => .flock .sh :: .regExists pid (some registered) ::
      (if registered then [.kill pid, .flock .un] else [.flock .un])
  | .check => .regExists pid (some registered) ::
      (if registered then [.kill pid, .flock .un] else [.flock .un])
  | .kill => [.kill pid, .flock .un]
  | .unlock => [.flock .un]
  | .unlockThrow => []

/-- What is done for the pids of a list. -/
def stopSteps (procs : List Runproc) (registered : List Bool) : List Label :=
  (List.zipWith (fun q b => stopRest q.pid.toInt b .next) procs registered).flatten

/-- What is seen from a point of the STOP branch to the answer. -/
def StopDue : StopPoint → List Runproc → List Label → Prop
  | .next, procs, ls => ∃ registered : List Bool, registered.length = procs.length ∧
      ls = stopSteps procs registered ++ [.tau]
  | .unlockThrow, _, _ => False
  | point, procs, ls => ∀ q rest, procs = q :: rest → ∃ (b : Bool) (registered : List Bool),
      registered.length = rest.length ∧ ls = stopRest q.pid.toInt b point ++
        (stopSteps rest registered ++ [.tau])

/-- STOP answers. -/
def Stops (batch : List Int) (pc : Pc) : Prop :=
  pc = .send Manager.stopMessage (.reply batch)

instance (batch : List Int) : DecidablePred (Stops batch) := fun _ =>
  inferInstanceAs (Decidable (_ = _))

/-- What is due at the STOP branch. -/
def StopBranch (batch : List Int) (pc : Pc) (ls : List Label) (_ : Pc) : Prop :=
  ∀ point procs, pc = .stop point procs batch → StopDue point procs ls

theorem stopSteps_cons (q : Runproc) (rest : List Runproc) (b : Bool) (registered : List Bool) :
    stopSteps (q :: rest) (b :: registered) =
      stopRest q.pid.toInt b .next ++ stopSteps rest registered := rfl

/-- A step of the STOP branch is the first of what is due. The unlock ends the turn of a pid, and
the next step begins that of another or the answer. -/
theorem StopBranch.code {batch : List Int} {m m' : Manager} {l : Label} {ls : List Label}
    {last : Pc} (hstep : Manager.codeStep E m l = some m')
    (h : Due (Stops batch) (StopBranch batch) m'.pc ls last) :
    StopBranch batch m.pc (l :: ls) last := by
  intro point procs hpc
  have hbranch : m.stopBranch procs batch point l = some m' := by
    rw [← hstep, Manager.codeStep, hpc]
  unfold Manager.stopBranch at hbranch
  split at hbranch
  · split at hbranch
    · -- no pid is left: the answer
      cases hbranch
      exact ⟨[], rfl, by rw [(h.reached rfl).1]; rfl⟩
    · next q rest =>
      cases hbranch
      obtain ⟨b, registered, hlen, rfl⟩ := h.branch .lock (q :: rest) rfl q rest rfl
      refine ⟨b :: registered, congrArg (· + 1) hlen, ?_⟩
      rw [stopSteps_cons, List.append_assoc]
      rfl
  · -- the shared lock
    cases hbranch
    intro q rest hq
    obtain ⟨b, registered, hlen, rfl⟩ := h.branch .check procs rfl q rest hq
    exact ⟨b, registered, hlen, rfl⟩
  · next pid r =>
    split at hbranch
    · next hpid =>
      intro q rest hq
      obtain rfl : q.pid.toInt = pid := by
        rw [hq] at hpid
        exact Option.some.inj hpid
      split at hbranch
      · -- the look at the file fails: the manager ends without an answer
        cases hbranch
        exact (h.branch .unlockThrow procs rfl).elim
      · cases hbranch
        obtain ⟨b, registered, hlen, rfl⟩ := h.branch .kill procs rfl q rest hq
        exact ⟨true, registered, hlen, rfl⟩
      · cases hbranch
        obtain ⟨b, registered, hlen, rfl⟩ := h.branch .unlock procs rfl q rest hq
        exact ⟨false, registered, hlen, rfl⟩
    · cases hbranch
  · next pid =>
    split at hbranch
    · next hpid =>
      cases hbranch
      intro q rest hq
      obtain rfl : q.pid.toInt = pid := by
        rw [hq] at hpid
        exact Option.some.inj hpid
      obtain ⟨b, registered, hlen, rfl⟩ := h.branch .unlock procs rfl q rest hq
      exact ⟨b, registered, hlen, rfl⟩
    · cases hbranch
  · -- the turn of `q` is over
    cases hbranch
    intro q rest hq
    subst hq
    obtain ⟨registered, hlen, rfl⟩ := h.branch .next rest rfl
    exact ⟨false, registered, hlen, rfl⟩
  · cases hbranch
    cases h.lasts
  · cases hbranch

/-- **STOP deals with each pid once, in the order of the message.** From the first pid to the
answer a manager does, for each pid of the list, what is in `stopSteps`: it takes the shared
lock, sees whether the pid has a file, sends it SIGTERM if it has one at that moment, and
unlocks. It does nothing else, whatever the other managers do meanwhile. -/
theorem stops_each {procs : List Runproc} {batch : List Int} {evs : List SysEvent}
    (hi : s.procs[i]? = some p) (hpc : p.mgr.pc = .stop .next procs batch)
    (h : Machine.LeadsTo (step E) (At i (Stops batch)) s evs) :
    ∃ registered : List Bool, registered.length = procs.length ∧
      Machine.trace (step E) (seen i) s evs = stopSteps procs registered ++ [.tau] := by
  have hend : ∀ pc, Stops batch pc → StopBranch batch pc [] pc := by
    rintro pc rfl point procs hstop
    cases hstop
  obtain ⟨t, q, -, -, hdue⟩ := Due.of_leadsTo (fun pc hT => (by cases hT; rfl)) hend
    (fun m m' l ls last => StopBranch.code) hi h
  exact hdue.branch .next procs hpc

/-- A client asks to stop the processes 100 and 200. -/
def stopBothLabels : List Label :=
  Proc.receiveLabels ⟨[8, 4, 34, 2, 8, 100, 34, 3, 8, 200, 1], by decide, by decide⟩

/-- `/bin/ls`, process 100, is told to end, and 200 is not, which another process has got
meanwhile. -/
theorem stops_each_ls : ∃ s registered,
    Machine.exec (step Proto3.env) start
      (.fork 5 50 :: steps 0 Proc.lsLabels ++ .fork 5 51 ::
        steps 1 (Proc.bootLabels ++ stopBothLabels)) = some s ∧
    registered.length = 2 ∧
    Machine.trace (step Proto3.env) (seen 1) s
      (steps 1 [.tau, .flock .sh] ++ .spawn 200 :: steps 1 [.regExists 100 (some true),
        .sigterm true, .kill 100, .flock .un, .tau] ++ .proc 0 (.exit 100 (.signaled 15)) ::
        steps 1 [.flock .sh, .regExists 200 (some false), .flock .un, .tau]) =
      stopSteps [{ pid := 100 }, { pid := 200 }] registered ++ [.tau] := by
  obtain ⟨s, hrun, hs⟩ := Machine.exec_of_any
    (show (Machine.exec (step Proto3.env) start
      (.fork 5 50 :: steps 0 Proc.lsLabels ++ .fork 5 51 ::
        steps 1 (Proc.bootLabels ++ stopBothLabels))).any
      (fun s => (s.procs[1]?.any fun p =>
          p.mgr.pc == .stop .next [{ pid := 100 }, { pid := 200 }] []) &&
        decide (Machine.LeadsTo (step Proto3.env) (At 1 (Stops [])) s
          (steps 1 [.tau, .flock .sh] ++ .spawn 200 :: steps 1 [.regExists 100 (some true),
            .sigterm true, .kill 100, .flock .un, .tau] ++
            .proc 0 (.exit 100 (.signaled 15)) ::
            steps 1 [.flock .sh, .regExists 200 (some false), .flock .un, .tau]))) = true
      by decide +kernel)
  simp only [Bool.and_eq_true, Option.any_eq_true, beq_iff_eq, decide_eq_true_eq] at hs
  obtain ⟨⟨p, hp, hpc⟩, hleads⟩ := hs
  obtain ⟨registered, hlen, htrace⟩ := stops_each hp hpc hleads
  exact ⟨s, registered, hrun, hlen, htrace⟩

end Sys
end Srun
