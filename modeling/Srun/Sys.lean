import Srun.Answers

/-!
# Managers, registry and process table

The daemon forks one manager for each connection. The managers share the registry
(`tmpfs`), the open file description behind `lockfd`, which the daemon has opened
before its forks, and the pids of the kernel. `Sys` is all of them together, with
the processes that are no commands (`strangers`), the managers themselves among
them: a pid is given to a new process, manager, command or other, as soon as
nothing has it any more, and a process is there until it is reaped.

When a manager is gone its children are the init process's, which reaps them.
-/

namespace Srun

/-- The process has ended. -/
def Pc.isGone : Pc → Bool
  | .gone _ => true
  | _ => false

/-- The registry file of the command has been created and not been written. -/
def Pc.writing : Pc → Bool
  | .handle .write _ _ => true
  | _ => false

/-- The open file description behind `lockfd`: every manager has inherited it. -/
def lockfd : ℕ := 0

/-- The managers of a daemon and what they share. -/
structure Sys where
  /-- The managers in the order of their forks; one that is gone stays. -/
  procs : List Proc := []
  /-- The files `tmpfs/<pid>` with their contents. -/
  registry : Int → Option Bytes := fun _ => none
  /-- The pids of processes that are no commands. -/
  strangers : List Int := []
  /-- The pids that the managers were given, in the order of their forks. -/
  managers : List Int := []
  locks : Flock.Locks ℕ := []

/-- What can happen. -/
inductive SysEvent
  /-- The daemon accepts a connection and forks; the manager gets `pid`. -/
  | fork (fd : ℕ) (pid : Int)
  /-- The manager `i` takes a step, or its command ends. -/
  | proc (i : ℕ) (ev : Event)
  /-- Init reaps a child of the manager `i`, which is gone. -/
  | orphan (i : ℕ) (pid : Int) (st : WaitStatus)
  /-- The kernel gives `pid` to a process that is no command. -/
  | spawn (pid : Int)
  /-- A process that is no command is reaped. -/
  | vanish (pid : Int)

namespace Proc

variable {E : Env} {p p' : Proc} {ev : Event}

/-- A process that has ended takes no steps. -/
theorem Step.isGone {l : Label} (hstep : Proc.Step E p (.mgr l) p') :
    p.mgr.pc.isGone = false := by
  cases hstep with
  | mgr hadm hm =>
    cases hm with
    -- the handler runs as long as there is a process
    | sigterm _ hpc => cases hp : p.mgr.pc <;> first | rfl | exact absurd hp (hpc _)
    | throws hl =>
      have hpc := (Pc.throwing_of_throws hl).1
      cases hp : p.mgr.pc <;> simp_all [Pc.isGone, Pc.throwing]
    | unlockThrow hpc => cases hp : p.mgr.pc <;> simp_all [Pc.isGone, Pc.unlockThrow]
    | _ => rw [‹p.mgr.pc = _›]; rfl

/-- A new child is a clone. -/
theorem Step.pids {pid : Int} (hstep : Proc.Step E p ev p') (h : pid ∈ p'.pids) :
    pid ∈ p.pids ∨ (ev = .mgr (.clone pid) ∧ pid ≠ -1) := by
  cases hstep with
  | @exit c st hc hst =>
    left
    simp only [Proc.pids, List.map_map, List.mem_map] at h ⊢
    obtain ⟨x, hx, rfl⟩ := h
    refine ⟨x, hx, ?_⟩
    -- the child that ends keeps its pid
    simp only [Function.comp_apply]
    split
    · next heq => rw [heq]
    · rfl
  | @mgr l m hadm hm =>
    cases l with
    | waitpid r =>
      cases r with
      | none => exact Or.inl h
      | some r =>
        obtain ⟨x, hx, rfl⟩ := List.mem_map.mp h
        exact Or.inl (List.mem_map.mpr ⟨x, List.mem_of_mem_erase hx, rfl⟩)
    | clone c =>
      by_cases hc : c = -1
      · simp only [Proc.pids, childrenAfter, if_pos hc] at h
        exact Or.inl h
      · simp only [Proc.pids, childrenAfter, if_neg hc, List.map_cons, List.mem_cons] at h
        rcases h with rfl | h
        · exact Or.inr ⟨rfl, hc⟩
        · exact Or.inl h
    | _ => exact Or.inl h

end Proc

namespace Sys

/-- The daemon when it begins to accept. -/
def start : Sys := {}

/-- No process has the pid. -/
def free (s : Sys) (pid : Int) : Bool :=
  pid ∉ s.strangers && s.procs.all fun p => pid ∉ p.pids

/-- A manager that is not gone has the pid. -/
def serves (s : Sys) (pid : Int) : Bool :=
  (s.procs.zip s.managers).any fun m => !m.1.mgr.pc.isGone && m.2 = pid

/-- What a manager can see of the rest, besides its own children. -/
def admits (s : Sys) : Event → Bool
  -- a pid is given out again only when no process has it
  | .mgr (.clone pid) => pid = -1 || s.free pid
  | .mgr (.flock op) => s.locks.grants lockfd op
  | .mgr (.readdir (.entry pid)) => (s.registry pid).isSome
  -- the modification time is whatever it is
  | .mgr (.readEntry pid (some (data, _))) => s.registry pid = some data
  | .mgr (.regExists pid (some b)) => (s.registry pid).isSome = b
  | _ => true

/-- The registry after a step of a manager. -/
def registryAfter (s : Sys) : Event → Int → Option Bytes
  | .mgr (.regCreate pid true) => Function.update s.registry pid (some [])
  -- a file that has been unlinked since it was opened stays away
  | .mgr (.regWrite pid data .complete) =>
    Function.update s.registry pid ((s.registry pid).map fun _ => data)
  | .mgr (.regWrite pid _ (.silent kept)) | .mgr (.regWrite pid _ (.failed kept)) =>
    Function.update s.registry pid ((s.registry pid).map fun _ => kept)
  | .mgr (.unlink pid) => Function.update s.registry pid none
  | _ => s.registry

/-- The pid whose registry file an event changes. -/
def touched : Event → Option Int
  | .mgr (.regCreate pid true) | .mgr (.regWrite pid _ _) | .mgr (.unlink pid) => some pid
  | _ => none

def locksAfter (s : Sys) : Event → Flock.Locks ℕ
  | .mgr (.flock op) => s.locks.after lockfd op
  | _ => s.locks

/-- The system after a step of the manager `i` to `p`. -/
def after (s : Sys) (i : ℕ) (ev : Event) (p : Proc) : Sys :=
  { s with procs := s.procs.set i p, registry := s.registryAfter ev, locks := s.locksAfter ev }

/-- One step. -/
def step (E : Env) (s : Sys) : SysEvent → Option Sys
  | .fork fd pid =>
    if 0 < pid ∧ s.free pid then
      some { s with
        procs := s.procs ++ [Proc.start fd]
        strangers := pid :: s.strangers
        managers := s.managers ++ [pid] }
    else none
  | .proc i ev =>
    (s.procs[i]?).bind fun p =>
      if s.admits ev then (p.step E ev).map (s.after i ev) else none
  | .orphan i pid st =>
    (s.procs[i]?).bind fun p =>
      if p.mgr.pc.isGone && (pid, .zombie st) ∈ p.children then
        some { s with
          procs := s.procs.set i { p with children := p.children.erase (pid, .zombie st) } }
      else none
  | .spawn pid =>
    if 0 < pid ∧ s.free pid then some { s with strangers := pid :: s.strangers } else none
  | .vanish pid =>
    if s.serves pid then none else some { s with strangers := s.strangers.erase pid }

/-- The steps of the system, by cases. -/
inductive Step (E : Env) (s : Sys) : SysEvent → Sys → Prop
  | fork (fd : ℕ) {pid : Int} (hpos : 0 < pid) (hfree : s.free pid = true) :
      Step E s (.fork fd pid) { s with
        procs := s.procs ++ [Proc.start fd]
        strangers := pid :: s.strangers
        managers := s.managers ++ [pid] }
  | proc {i : ℕ} {ev : Event} {p p' : Proc} (hi : s.procs[i]? = some p) (hadm : s.admits ev = true)
      (hp : Proc.Step E p ev p') : Step E s (.proc i ev) (s.after i ev p')
  | orphan {i : ℕ} {pid : Int} {st : WaitStatus} {p : Proc} (hi : s.procs[i]? = some p)
      (hgone : p.mgr.pc.isGone = true) :
      Step E s (.orphan i pid st) { s with
        procs := s.procs.set i { p with children := p.children.erase (pid, .zombie st) } }
  | spawn {pid : Int} (hpos : 0 < pid) (hfree : s.free pid = true) :
      Step E s (.spawn pid) { s with strangers := pid :: s.strangers }
  | vanish {pid : Int} (hgone : s.serves pid = false) :
      Step E s (.vanish pid) { s with strangers := s.strangers.erase pid }

variable {E : Env} {s s' : Sys} {ev : SysEvent}

theorem step_cases (h : s.step E ev = some s') : Step E s ev s' := by
  cases ev with
  | fork fd pid =>
    simp only [Sys.step] at h
    split at h
    · next hfree => cases h; exact .fork fd hfree.1 hfree.2
    · cases h
  | proc i ev =>
    obtain ⟨p, hi, h⟩ := Option.bind_eq_some_iff.mp h
    split at h
    · next hadm =>
      obtain ⟨p', hp, rfl⟩ := Option.map_eq_some_iff.mp h
      exact .proc hi hadm (Proc.step_cases hp)
    · cases h
  | orphan i pid st =>
    obtain ⟨p, hi, h⟩ := Option.bind_eq_some_iff.mp h
    split at h
    · next hgone =>
      cases h
      exact .orphan hi (by simpa using And.left (by simpa using hgone))
    · cases h
  | spawn pid =>
    simp only [Sys.step] at h
    split at h
    · next hfree => cases h; exact .spawn hfree.1 hfree.2
    · cases h
  | vanish pid =>
    simp only [Sys.step] at h
    split at h
    · cases h
    · next hgone => cases h; exact .vanish (Bool.eq_false_iff.mpr hgone)

theorem registryAfter_of_ne {e : Event} {pid : Int} (h : touched e ≠ some pid) :
    s.registryAfter e pid = s.registry pid := by
  have hne : ∀ {c : Int}, touched e = some c → pid ≠ c := by
    rintro c hc rfl
    exact h hc
  unfold registryAfter
  split
  case h_6 => rfl
  all_goals exact Function.update_of_ne (hne rfl) ..

/-- A file that was not there has just been created. -/
theorem registryAfter_ne_none {e : Event} {pid : Int} (h : s.registryAfter e pid ≠ none) :
    s.registry pid ≠ none ∨ e = .mgr (.regCreate pid true) := by
  by_cases ht : touched e = some pid
  · -- of the events that touch the file only its creation can bring it into being
    unfold touched at ht
    split at ht <;> cases ht
    · exact Or.inr rfl
    · rename_i r
      cases r <;> exact Or.inl (by simpa [registryAfter] using h)
    · exact absurd (Function.update_self ..) h
  · exact Or.inl (by rwa [registryAfter_of_ne ht] at h)

/-! ### The managers of a system -/

/-- The managers after one of them has changed. -/
theorem getElem?_set_cases {procs : List Proc} {i j : ℕ} {p q : Proc}
    (h : (procs.set i p)[j]? = some q) : (j = i ∧ q = p) ∨ (j ≠ i ∧ procs[j]? = some q) := by
  rw [List.getElem?_set] at h
  split at h
  · next heq =>
    split at h
    · exact Or.inl ⟨heq.symm, (Option.some.inj h).symm⟩
    · cases h
  · next hne => exact Or.inr ⟨fun heq => hne heq.symm, h⟩

/-- The managers after a fork. -/
theorem getElem?_concat_cases {procs : List Proc} {j : ℕ} {p q : Proc}
    (h : (procs ++ [p])[j]? = some q) : q = p ∨ procs[j]? = some q := by
  rw [List.getElem?_append] at h
  split at h
  · exact Or.inr h
  · exact Or.inl (List.mem_singleton.mp (List.mem_of_getElem? h))

theorem free_iff {pid : Int} : s.free pid = true ↔
    pid ∉ s.strangers ∧ ∀ (j : ℕ) (q : Proc), s.procs[j]? = some q → pid ∉ q.pids := by
  simp only [free, Bool.and_eq_true, decide_eq_true_eq, List.all_eq_true]
  refine and_congr_right fun _ => ⟨fun h j q hj => h q (List.mem_of_getElem? hj), fun h q hq => ?_⟩
  obtain ⟨j, hj⟩ := List.getElem?_of_mem hq
  exact h j q hj

/-- The managers that are there satisfy `I`. -/
def Live (I : Proc → Prop) (s : Sys) : Prop :=
  ∀ (j : ℕ) (q : Proc), s.procs[j]? = some q → q.mgr.pc.isGone = false → I q

/-- An invariant of a manager is one of all managers that are there. -/
theorem Live.step {I : Proc → Prop} (hstart : ∀ fd, I (Proc.start fd))
    (hpres : ∀ p e p', I p → Proc.Step E p e p' → I p') (h : Live I s)
    (hstep : Step E s ev s') : Live I s' := by
  intro j q hj hq
  cases hstep with
  | fork fd =>
    rcases getElem?_concat_cases hj with rfl | hj
    · exact hstart fd
    · exact h j q hj hq
  | @proc i e p p' hi hadm hp =>
    -- the manager that takes the step, or one of the others
    rcases getElem?_set_cases hj with ⟨rfl, rfl⟩ | ⟨-, hj⟩
    · have hlive : p.mgr.pc.isGone = false := by
        cases hp with
        | exit => exact hq
        | mgr hadm' hm => exact Proc.Step.isGone (.mgr hadm' hm)
      exact hpres p e _ (h _ p hi hlive) hp
    · exact h j q hj hq
  | @orphan i pid st p hi hgone =>
    rcases getElem?_set_cases hj with ⟨rfl, rfl⟩ | ⟨-, hj⟩
    · -- only children of managers that are gone are orphans
      simp [hgone] at hq
    · exact h j q hj hq
  | _ => exact h j q hj hq

/-- A child of a manager was there before, or it has just been cloned. -/
theorem Step.mem_pids (hstep : Step E s ev s') {j : ℕ} {q : Proc} {pid : Int}
    (hj : s'.procs[j]? = some q) (hq : pid ∈ q.pids) :
    (∃ q', s.procs[j]? = some q' ∧ pid ∈ q'.pids) ∨
      (ev = .proc j (.mgr (.clone pid)) ∧ s.free pid = true) := by
  cases hstep with
  | fork fd =>
    rcases getElem?_concat_cases hj with rfl | hj
    · simp [Proc.pids, Proc.start] at hq
    · exact Or.inl ⟨q, hj, hq⟩
  | @proc i e p p' hi hadm hp =>
    rcases getElem?_set_cases hj with ⟨rfl, rfl⟩ | ⟨-, hj⟩
    · rcases hp.pids hq with hq | ⟨rfl, hne⟩
      · exact Or.inl ⟨p, hi, hq⟩
      · exact Or.inr ⟨rfl, by simpa [admits, hne] using hadm⟩
    · exact Or.inl ⟨q, hj, hq⟩
  | @orphan i pid' st p hi hgone =>
    rcases getElem?_set_cases hj with ⟨rfl, rfl⟩ | ⟨-, hj⟩
    · obtain ⟨x, hx, rfl⟩ := List.mem_map.mp hq
      exact Or.inl ⟨p, hi, List.mem_map.mpr ⟨x, List.mem_of_mem_erase hx, rfl⟩⟩
    · exact Or.inl ⟨q, hj, hq⟩
  | _ => exact Or.inl ⟨q, hj, hq⟩

/-- A pid belongs to one process. -/
structure Apart (s : Sys) : Prop where
  strangers : ∀ (j : ℕ) (q : Proc) (pid : Int), s.procs[j]? = some q → pid ∈ q.pids →
    pid ∉ s.strangers
  commands : ∀ (i j : ℕ) (p q : Proc) (pid : Int), i ≠ j → s.procs[i]? = some p →
    s.procs[j]? = some q → pid ∈ p.pids → pid ∉ q.pids

theorem Apart.start : Apart start :=
  ⟨fun _ _ _ h => by simp [Sys.start] at h, fun _ _ _ _ _ _ h => by simp [Sys.start] at h⟩

theorem Apart.step (h : Apart s) (hstep : Step E s ev s') : Apart s' := by
  constructor
  · intro j q pid hj hq
    -- an old command, next to which a stranger may appear, or a new one with a free pid
    rcases hstep.mem_pids hj hq with ⟨q', hj', hq'⟩ | ⟨rfl, hfree⟩
    · have hold := h.strangers j q' pid hj' hq'
      cases hstep with
      | @spawn pid' hpos hfree | @fork fd pid' hpos hfree =>
        intro hmem
        rcases List.mem_cons.mp hmem with rfl | hmem
        · exact (free_iff.mp hfree).2 j q' hj' hq'
        · exact hold hmem
      | vanish => exact fun hmem => hold (List.mem_of_mem_erase hmem)
      | _ => exact hold
    · cases hstep with
      | proc => exact (free_iff.mp hfree).1
  · intro i j p q pid hne hi hj hp hq
    rcases hstep.mem_pids hi hp with ⟨p', hi', hp'⟩ | ⟨rfl, hfree⟩
    · rcases hstep.mem_pids hj hq with ⟨q', hj', hq'⟩ | ⟨-, hfree⟩
      · exact h.commands i j p' q' pid hne hi' hj' hp' hq'
      · exact (free_iff.mp hfree).2 i p' hi' hp'
    · -- one step clones for one manager only
      rcases hstep.mem_pids hj hq with ⟨q', hj', hq'⟩ | ⟨heq, -⟩
      · exact (free_iff.mp hfree).2 j q' hj' hq'
      · cases heq
        exact hne rfl

/-! ### The pids of the managers -/

/-- A manager that is there holds its pid. -/
structure Seated (s : Sys) : Prop where
  length : s.managers.length = s.procs.length
  pid : ∀ (j : ℕ) (p : Proc) (pid : Int), s.procs[j]? = some p → s.managers[j]? = some pid →
    p.mgr.pc.isGone = false → pid ∈ s.strangers

theorem Seated.start : Seated start :=
  ⟨rfl, fun _ _ _ h => by simp [Sys.start] at h⟩

theorem serves_of_getElem? {j : ℕ} {p : Proc} {pid : Int} (hj : s.procs[j]? = some p)
    (hpid : s.managers[j]? = some pid) (hp : p.mgr.pc.isGone = false) : s.serves pid = true := by
  refine List.any_eq_true.mpr ⟨(p, pid), List.mem_of_getElem? (i := j) ?_, by simp [hp]⟩
  rw [List.getElem?_zip_eq_some]
  exact ⟨hj, hpid⟩

theorem Seated.step (h : Seated s) (hstep : Step E s ev s') : Seated s' := by
  cases hstep with
  | @fork fd pid' hpos hfree =>
    refine ⟨by simp [h.length], fun j p pid hj hpid hp => ?_⟩
    by_cases hlt : j < s.procs.length
    · rw [List.getElem?_append_left hlt] at hj
      rw [List.getElem?_append_left (h.length ▸ hlt)] at hpid
      exact List.mem_cons_of_mem _ (h.pid j p pid hj hpid hp)
    · -- the new manager
      rw [List.getElem?_append_right (h.length ▸ Nat.not_lt.mp hlt)] at hpid
      rw [List.mem_singleton.mp (List.mem_of_getElem? hpid)]
      exact List.mem_cons_self
  | @proc i e p p' hi hadm hproc =>
    refine ⟨by simp [Sys.after, h.length], fun j q pid hj hpid hq => ?_⟩
    rcases getElem?_set_cases hj with ⟨rfl, rfl⟩ | ⟨-, hj⟩
    · refine h.pid _ p pid hi hpid ?_
      cases hproc with
      | exit => exact hq
      | mgr hadm' hm => exact Proc.Step.isGone (.mgr hadm' hm)
    · exact h.pid j q pid hj hpid hq
  | @orphan i pid' st p hi hgone =>
    refine ⟨by simp [h.length], fun j q pid hj hpid hq => ?_⟩
    rcases getElem?_set_cases hj with ⟨rfl, rfl⟩ | ⟨-, hj⟩
    · exact h.pid _ p pid hi hpid hq
    · exact h.pid j q pid hj hpid hq
  | spawn =>
    exact ⟨h.length, fun j p pid hj hpid hp => List.mem_cons_of_mem _ (h.pid j p pid hj hpid hp)⟩
  | @vanish pid' hgone =>
    refine ⟨h.length, fun j p pid hj hpid hp => ?_⟩
    refine (List.mem_erase_of_ne ?_).mpr (h.pid j p pid hj hpid hp)
    rintro rfl
    rw [show s.serves pid = true from serves_of_getElem? hj hpid hp] at hgone
    cases hgone

/-- **No command has the pid of a manager** that is there, so that none of the signals to
commands hits one. -/
theorem managers_apart (h : Machine.Reachable (step E) start s) {i j : ℕ} {p q : Proc}
    {pid : Int} (hi : s.procs[i]? = some p) (hpid : s.managers[i]? = some pid)
    (hp : p.mgr.pc.isGone = false) (hj : s.procs[j]? = some q) : pid ∉ q.pids := by
  have hapart : Apart s := h.invariant (fun _ _ _ hs hstep => hs.step (step_cases hstep)) .start
  have hseated : Seated s :=
    h.invariant (fun _ _ _ hs hstep => hs.step (step_cases hstep)) .start
  exact fun hmem => hapart.strangers j q pid hj hmem (hseated.pid i p pid hi hpid hp)

/-! ### The lock -/

/-- All locks are those of the one description. -/
def Shared (s : Sys) : Prop := ∀ e ∈ s.locks, e.1 = lockfd

theorem Shared.step (h : Shared s) (hstep : Step E s ev s') : Shared s' := by
  cases hstep with
  | @proc i ev p p' hi hadm hp =>
    unfold Shared after locksAfter
    split
    · exact Flock.after_forall h
    · exact h
  | _ => exact h

/-- **The lock does not wait.** Whatever the other managers hold, a manager is granted
the lock at once. -/
theorem flock_granted (h : Machine.Reachable (step E) start s) (op : Flock.Op) :
    s.admits (.mgr (.flock op)) = true := by
  have hshared : Shared s :=
    h.invariant (fun _ _ _ hs hstep => Shared.step hs (step_cases hstep)) (by simp [Shared, start])
  exact Flock.grants_of_forall hshared

/-- The manager `i` takes steps. -/
def steps (i : ℕ) (ls : List Label) : List SysEvent := ls.map fun l => .proc i (.mgr l)

end Sys
end Srun
