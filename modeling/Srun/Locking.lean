import Srun.Sys

/-!
# The registry lock

`handle_request` and `clear_clonepid` change the registry under LOCK_EX, LIST and
STOP read it under LOCK_SH. All managers lock through the description that the
daemon has opened, so the lock is granted always (`Sys.flock_granted`), and a
request of one manager only converts the lock that another one believes to hold.

What a manager believes to hold follows its own calls of `flock`
(`Proc.Step.held`). Collected over the managers these are the locks that they would
hold through descriptions of their own (`Sys.held`), and the sections exclude each
other in exactly the runs in which each request would have been granted against
those locks (`Sys.exclusive_iff`).
-/

namespace Srun

namespace Pc

/-- What the manager believes to hold: between `flock` and LOCK_UN. -/
def held : Pc → Option Flock.Mode
  | .handle .create _ _ | .handle .write _ _ | .handle .unlock _ _ | .handle .unlockThrow _ _
  | .clear .unlink _ _ | .clear .unlock _ _ => some .ex
  | .list .next _ _ | .list (.read _) _ _ | .list .unlock _ _ | .list .unlockThrow _ _
  | .stop .check _ _ | .stop .kill _ _ | .stop .unlock _ _ | .stop .unlockThrow _ _ => some .sh
  | _ => none

/-- LIST is about to read the registry file of a pid. -/
def reads : Pc → Option Int
  | .list (.read pid) _ _ => some pid
  | _ => none

theorem held_of_reads {pc : Pc} {pid : Int} (h : pc.reads = some pid) : pc.held = some .sh := by
  unfold reads at h
  split at h <;> first | rfl | cases h

theorem held_of_writing {pc : Pc} (h : pc.writing = true) : pc.held = some .ex := by
  unfold writing at h
  split at h <;> first | rfl | cases h

theorem held_of_throwing {pc : Pc} (h : pc.throwing = true) : pc.held = none := by
  unfold throwing at h
  split at h <;> first | rfl | cases h

end Pc

/-- What is held after an event, when it was `m` before. -/
def Event.heldAfter (m : Option Flock.Mode) : Event → Option Flock.Mode
  | .mgr (.flock op) => op.mode
  | _ => m

theorem Event.heldAfter_of_throwing {l : Label} (h : l.throwing = true)
    (m : Option Flock.Mode) : (Event.mgr l).heldAfter m = m := by
  cases l <;> first | rfl | cases h

namespace Proc

variable {E : Env} {p p' : Proc} {ev : Event}

/-- **A section lasts from one call of `flock` to the next.** -/
theorem Step.held (hstep : Proc.Step E p ev p') :
    p'.mgr.pc.held = ev.heldAfter p.mgr.pc.held := by
  cases hstep with
  | exit => rfl
  | mgr hadm hm =>
    cases hm with
    | sigterm | waitOther => rfl
    -- the calls of `flock`
    | unlockThrow | clearLock | clearUnlock | listLock | listUnlock | stopLock | stopUnlock
    | handleLock | handleUnlock => rfl
    | throws hl =>
      obtain ⟨hpc, hl⟩ := Pc.throwing_of_throws hl
      rw [Event.heldAfter_of_throwing hl, Pc.held_of_throwing hpc]
      rfl
    -- the points that are reached on several ways hold nothing, whichever it is
    | loopCheck hpc =>
      exact Eq.trans (Manager.loopCheck_pc rfl (fun _ _ _ => rfl) fun _ => rfl) (by rw [hpc]; rfl)
    | dispatch evs hpc =>
      exact Eq.trans (Manager.dispatch_pc rfl (fun _ => rfl) (fun _ _ => rfl) (fun _ _ => rfl)
        fun _ => rfl) (by rw [hpc]; rfl)
    | reap hpc => exact Eq.trans (Manager.reaped_pc rfl rfl rfl) (by rw [hpc]; rfl)
    | argsSurvive hpc => exact Eq.trans (Manager.clearEntry_pc rfl rfl) (by rw [hpc]; rfl)
    | received hpc =>
      exact Eq.trans (Manager.received_pc rfl rfl rfl rfl rfl rfl) (by rw [hpc]; rfl)
    | @waitNone k hpc | @stopKill k hpc | @stopIdle k hpc | @sent m k data hpc =>
      exact Eq.trans (b := none) (by cases k <;> rfl) (by rw [hpc]; rfl)
    -- inside and outside the sections the other steps stay where they are
    | _ => exact Eq.symm (by rw [‹p.mgr.pc = _›]; rfl)

end Proc

namespace Sys

variable {E : Env} {s s' : Sys} {ev : SysEvent}

/-- The locks that the managers believe to hold, each through a description of its own. -/
def held (s : Sys) : Flock.Locks ℕ :=
  s.procs.zipIdx.filterMap fun (p, i) => p.mgr.pc.held.map (i, ·)

/-- What the manager `i` believes to hold. -/
def heldAt (s : Sys) (i : ℕ) : Option Flock.Mode := s.procs[i]?.bind (·.mgr.pc.held)

theorem mem_held {e : ℕ × Flock.Mode} : e ∈ s.held ↔ s.heldAt e.1 = some e.2 := by
  obtain ⟨i, m⟩ := e
  simp only [held, heldAt, List.mem_filterMap, Option.map_eq_some_iff, Option.bind_eq_some_iff,
    Prod.mk.injEq]
  constructor
  · rintro ⟨⟨p, j⟩, hmem, m', hm, rfl, rfl⟩
    exact ⟨p, List.mem_zipIdx_iff_getElem?.mp hmem, hm⟩
  · rintro ⟨p, hp, hm⟩
    exact ⟨(p, i), List.mem_zipIdx_iff_getElem?.mpr hp, m, hm, rfl, rfl⟩

/-- A request that would be granted if each manager had opened the lock file itself. -/
def granted (s : Sys) : SysEvent → Bool
  | .proc i (.mgr (.flock op)) => s.held.grants i op
  | _ => true

/-- What the lock is for. -/
structure Exclusive (s : Sys) : Prop where
  /-- While a manager is between LOCK_EX and LOCK_UN no other one is in a section. -/
  sections : ∀ (i j : ℕ) (p q : Proc), i ≠ j → s.procs[i]? = some p → s.procs[j]? = some q →
    p.mgr.pc.held = some .ex → q.mgr.pc.held = none
  /-- LIST reads no file that another manager is half way through writing. -/
  reads : ∀ (i j : ℕ) (p q : Proc), s.procs[i]? = some p → s.procs[j]? = some q →
    p.mgr.pc.writing = true → q.mgr.pc.reads ≠ some p.mgr.clonepid

/-- The sections exclude each other when the locks that are believed to be held would
be compatible. -/
theorem exclusive_iff_compatible : s.Exclusive ↔ s.held.Compatible := by
  have hat : ∀ {i : ℕ} {p : Proc}, s.procs[i]? = some p → s.heldAt i = p.mgr.pc.held := by
    intro i p hp
    simp [heldAt, hp]
  -- an exclusive lock on either side leaves nothing to the other
  constructor
  · rintro h ⟨i, m⟩ he ⟨j, n⟩ hf hne
    obtain ⟨p, hp, hm⟩ := Option.bind_eq_some_iff.mp (mem_held.mp he)
    obtain ⟨q, hq, hn⟩ := Option.bind_eq_some_iff.mp (mem_held.mp hf)
    constructor
    · cases m with
      | sh => rfl
      | ex => simp [h.sections i j p q hne hp hq hm] at hn
    · cases n with
      | sh => rfl
      | ex => simp [h.sections j i q p (Ne.symm hne) hq hp hn] at hm
  · intro h
    have hsections : ∀ (i j : ℕ) (p q : Proc), i ≠ j → s.procs[i]? = some p →
        s.procs[j]? = some q → p.mgr.pc.held = some .ex → q.mgr.pc.held = none := by
      intro i j p q hne hp hq hex
      cases hn : q.mgr.pc.held with
      | none => rfl
      | some n =>
        have hi : (i, Flock.Mode.ex) ∈ s.held := mem_held.mpr ((hat hp).trans hex)
        have hj : (j, n) ∈ s.held := mem_held.mpr ((hat hq).trans hn)
        cases (h _ hi _ hj hne).1
    refine ⟨hsections, fun i j p q hp hq hw hr => ?_⟩
    have hex := Pc.held_of_writing hw
    have hsh := Pc.held_of_reads hr
    -- a manager does not write and read at once; another one is outside its section
    by_cases hij : i = j
    · subst hij
      rw [Option.some.inj (hp.symm.trans hq), hsh] at hex
      cases hex
    · simp [hsections i j p q hij hp hq hex] at hsh

/-- The locks that are believed to be held after a step. -/
def heldAfter (s : Sys) : SysEvent → Flock.Locks ℕ
  | .proc i (.mgr (.flock op)) => s.held.after i op
  | _ => s.held

theorem heldAt_set {i : ℕ} {p p' : Proc} (hi : s.procs[i]? = some p) (t : Sys)
    (ht : t.procs = s.procs.set i p') (j : ℕ) :
    t.heldAt j = if j = i then p'.mgr.pc.held else s.heldAt j := by
  have hlt : i < s.procs.length := (List.getElem?_eq_some_iff.mp hi).1
  by_cases hj : j = i
  · subst hj
    simp [heldAt, ht, hlt]
  · simp [heldAt, ht, hj, Ne.symm hj]

theorem mem_heldAfter_proc {i : ℕ} {e : Event} {f : ℕ × Flock.Mode} :
    f ∈ s.heldAfter (.proc i e) ↔
      (if f.1 = i then e.heldAfter (s.heldAt i) else s.heldAt f.1) = some f.2 := by
  have hsame : f ∈ s.held ↔ (if f.1 = i then s.heldAt i else s.heldAt f.1) = some f.2 := by
    rw [mem_held]
    split
    · next hi => rw [hi]
    · rfl
  cases e with
  | exit => exact hsame
  | mgr l =>
    cases l with
    | flock op =>
      simp only [heldAfter, Flock.mem_after, mem_held, Event.heldAfter]
      split
      · next hi => simp [hi]
      · next hi => simp [hi]
    | _ => exact hsame

/-- Only `flock` changes what is held, and only for its caller. -/
theorem Step.mem_held (hstep : Step E s ev s') {e : ℕ × Flock.Mode} :
    e ∈ s'.held ↔ e ∈ s.heldAfter ev := by
  have hat : ∀ {i : ℕ} {p : Proc}, s.procs[i]? = some p → s.heldAt i = p.mgr.pc.held := by
    intro i p hp
    simp [heldAt, hp]
  cases hstep with
  -- the new manager holds nothing
  | fork fd =>
    simp only [heldAfter, Sys.mem_held, heldAt, List.getElem?_append]
    split
    · rfl
    · next hj =>
      rw [List.getElem?_eq_none (Nat.not_lt.mp hj)]
      cases e.1 - s.procs.length <;> simp [Proc.start, Pc.held]
  | @proc i ev p p' hi hadm hp =>
    rw [Sys.mem_held, heldAt_set hi _ rfl, mem_heldAfter_proc, hp.held, hat hi]
  -- the end of a child of a manager that is gone changes no program point
  | @orphan i pid st p hi hgone =>
    rw [Sys.mem_held, heldAt_set hi _ rfl]
    refine Iff.trans ?_ Sys.mem_held.symm
    split
    · next hj => rw [hj, hat hi]
    · rfl
  | _ => rfl

/-- **One step.** From a state in which the sections exclude each other a step leads
to another one exactly when it is granted. -/
theorem Step.exclusive_iff_granted (hstep : Step E s ev s') (h : s.Exclusive) :
    s'.Exclusive ↔ s.granted ev = true := by
  have hcomp := exclusive_iff_compatible.mp h
  have hsame : s'.held.Compatible ↔ (s.heldAfter ev).Compatible := by
    unfold Flock.Locks.Compatible
    simp only [hstep.mem_held]
  rw [exclusive_iff_compatible, hsame]
  unfold heldAfter granted
  -- only a call of `flock` is a request
  split
  · exact Flock.compatible_after_iff hcomp
  · exact iff_of_true hcomp rfl

/-- **The sections exclude each other in the runs that descriptions of their own would
have granted, and only in these.** -/
theorem exclusive_iff {evs : List SysEvent} (hrun : Machine.exec (step E) start evs = some s) :
    Machine.Always (step E) Exclusive start evs ↔
      Machine.StepsMeet (step E) (fun s ev => s.granted ev = true) start evs :=
  Machine.always_iff_stepsMeet (I := fun _ => True) (W := fun _ _ => True)
    (fun _ _ _ _ _ _ => trivial)
    (fun _ _ _ _ h _ hs => (step_cases hs).exclusive_iff_granted h) trivial
    ⟨by simp [start], by simp [start]⟩ (.of_forall fun _ _ => trivial) hrun

/-- From `epoll_wait` into the LIST branch, up to the read of the file of `pid`. -/
def listReadLabels (pid : Int) : List Label :=
  Proc.receiveLabels Proc.listData ++ [.flock .sh, .readdir (.entry pid)]

/-- A manager serves `/bin/ls`, and then another one lists it. -/
theorem exclusive_iff_ls :
    Machine.Always (step Proto3.env) Exclusive start
      (.fork 5 50 :: steps 0 Proc.lsLabels ++ .fork 5 51 ::
        steps 1 (Proc.bootLabels ++ listReadLabels 100 ++
          [.readEntry 100 (some (Proc.lsData.bytes, 0)),
          .readdir .done, .flock .un])) := by
  obtain ⟨s, hrun, -⟩ := Machine.exec_of_any
    (show (Machine.exec (step Proto3.env) start
      (.fork 5 50 :: steps 0 Proc.lsLabels ++ .fork 5 51 ::
        steps 1 (Proc.bootLabels ++ listReadLabels 100 ++
          [.readEntry 100 (some (Proc.lsData.bytes, 0)),
          .readdir .done, .flock .un]))).any (fun s => s.procs.length == 2) = true by
        decide +kernel)
  exact (exclusive_iff hrun).mpr (by decide +kernel)

/-- While one manager has created `tmpfs/100` and not written it, another one is granted
LOCK_SH and reads the file. -/
theorem not_exclusive :
    ¬ ∀ evs s, Machine.exec (step Proto3.env) start evs = some s → s.Exclusive := by
  intro hall
  obtain ⟨s, hrun, hs⟩ := Machine.exec_of_any
    (show (Machine.exec (step Proto3.env) start
      (.fork 5 50 :: steps 0 (Proc.bootLabels ++ Proc.receiveLabels Proc.lsData ++
        (Proc.handleLabels Proc.lsData.bytes 100).take 12) ++ .fork 5 51 ::
        steps 1 (Proc.bootLabels ++ listReadLabels 100))).any
      (fun s => s.registry 100 == some [] && s.procs[0]?.any (·.mgr.pc.held == some .ex) &&
        s.procs[1]?.any (·.mgr.pc.reads == some 100)) = true by decide +kernel)
  simp only [Bool.and_eq_true, Option.any_eq_true, beq_iff_eq] at hs
  obtain ⟨⟨-, p, hp, hex⟩, q, hq, hr⟩ := hs
  have := (hall _ s hrun).sections 0 1 p q (by decide) hp hq hex
  rw [Pc.held_of_reads hr] at this
  cases this

end Sys
end Srun
