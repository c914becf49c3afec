import Srun.Sys

/-!
# Registered commands

`handle_request` writes the message of its command to `tmpfs/<pid>`, and
`clear_clonepid` unlinks the file. The registry is keyed by the pid, which is free as
soon as the command has been reaped, while the unlink comes later: a manager that is
slow to clear removes the file of the next command with this pid.

`Filing` sums up what a step of a manager does to the record of its command and to
the registry. From it follow what a manager knows about its own command
(`Recorded`), and what the registry holds for it (`Kept`). Between two managers the
one thing to be excluded is that a file is created while another manager is still
to clear the pid (`Sys.clears`).
-/

namespace Srun

namespace Pc

/-- The registry file has been written, and `handle_request` goes on. -/
def filed : Pc → Bool
  | .handle .unlock _ _ | .handle .bindOut _ _ | .handle .bindErr _ _ | .handle .timer _ _
  | .handle .settime _ _ | .handle .timerAdd _ _ | .handle .reply _ _ | .send _ (.started _) => true
  | _ => false

/-- The bytes of the message that `handle_request` handles. -/
def payload : Pc → Option Bytes
  | .handle _ data _ => some data
  | _ => none

/-- The points from which a step can change the record of the command. -/
def noting : Pc → Bool
  | .handle .clone _ _ | .handle .reply _ _ | .send _ _ => true
  | _ => false

/-- The pid whose file is to be unlinked; `clonepid` has been reset in `clear_clonepid`. -/
def clears (clonepid : Int) : Pc → Option Int
  | .argsRead _ => some clonepid
  | .clear .lock pid _ | .clear .unlink pid _ => some pid
  | _ => none

theorem setup_of_filed {pc : Pc} (h : pc.filed = true) : pc.setup = true := by
  unfold filed at h
  split at h <;> first | rfl | cases h

theorem setup_of_writing {pc : Pc} (h : pc.writing = true) : pc.setup = true := by
  unfold writing at h
  split at h <;> first | rfl | cases h

theorem noting_of_unlockThrow {pc : Pc} (h : pc.unlockThrow = true) : pc.noting = false := by
  unfold unlockThrow at h
  split at h <;> first | rfl | cases h

end Pc

namespace Manager

theorem clearEntry_clears {s : Manager} {k : WaitRet} {pid : Int}
    (h : (s.clearEntry k).pc.clears (s.clearEntry k).clonepid = some pid) : pid = s.clonepid := by
  unfold clearEntry at h
  split at h
  · exact (Option.some.inj h).symm
  · cases h

theorem reaped_clears {s : Manager} {st : WaitStatus} {k : WaitRet} {pid : Int}
    (h : (s.reaped st k).pc.clears (s.reaped st k).clonepid = some pid) : pid = s.clonepid := by
  cases st with
  | signaled sig =>
    simp only [reaped] at h
    split at h
    · exact (Option.some.inj h).symm
    · have hpid := clearEntry_clears h
      exact hpid
  | _ =>
    simp only [reaped] at h
    have hpid := clearEntry_clears h
    exact hpid

end Manager

namespace Proc

variable {E : Env} {p p' : Proc} {ev : Event} {l : Label}

/-- The pid whose file the manager is to unlink. -/
def clearing (p : Proc) : Option Int := p.mgr.pc.clears p.mgr.clonepid

theorem histAfter_command (h : p.mgr.pc.noting = false) :
    (p.histAfter E l).command = p.hist.command := by
  unfold histAfter
  split <;> first
    | rfl
    | (split <;> rfl)
    | simp_all [Pc.noting]

theorem histAfter_command_of_throwing (hpc : p.mgr.pc.throwing = true) (h : l.throwing = true) :
    (p.histAfter E l).command = p.hist.command := by
  unfold histAfter
  split <;> first
    | rfl
    | (split <;> rfl)
    | (next => rw [if_neg (of_decide_eq_true h)])
    | simp_all [Pc.throwing]

theorem touched_of_throwing (h : l.throwing = true) : Sys.touched (.mgr l) = none := by
  cases l <;> first | rfl | cases h

/-- What a step does to the record of the command and to its file. -/
inductive Filing (p : Proc) : Event → Proc → Prop
  /-- Nothing. -/
  | quiet {ev : Event} {p' : Proc} (htouched : Sys.touched ev = none)
      (hcommand : p'.hist.command = p.hist.command)
      (hpids : ∀ pid ∈ p'.pids, pid ∈ p.pids)
      (hwriting : p'.mgr.pc.writing = true → p.mgr.pc.writing = true)
      (hfiled : p'.mgr.pc.filed = true → p.mgr.pc.filed = true)
      (hsetup : p'.mgr.pc.setup = true → p.mgr.pc.setup = true ∧
        p'.mgr.clonepid = p.mgr.clonepid ∧
        ∀ data, p'.mgr.pc.payload = some data → p.mgr.pc.payload = some data)
      (hclearing : ∀ pid, p'.clearing = some pid → p'.mgr.childStatus ≠ .procRunning ∧
        (p.clearing = some pid ∨ pid ∈ p.pids)) : Filing p ev p'
  | clone {data : Bytes} {evs : List Int} {pid : Int} {p' : Proc}
      (hpids : p'.pids = [pid]) (hcommand : p'.hist.command = some ⟨pid, data, false⟩)
      (hclonepid : p'.mgr.clonepid = pid) (hpc' : p'.mgr.pc = .handle .leaf data evs) :
      Filing p (.mgr (.clone pid)) p'
  | create {data : Bytes} {evs : List Int} {p' : Proc} (hpc : p.mgr.pc = .handle .create data evs)
      (hcommand : p'.hist.command = p.hist.command) (hpids : p'.pids = p.pids)
      (hclonepid : p'.mgr.clonepid = p.mgr.clonepid) (hpc' : p'.mgr.pc = .handle .write data evs) :
      Filing p (.mgr (.regCreate p.mgr.clonepid true)) p'
  | write {data : Bytes} {evs : List Int} {r : FileWrite} {p' : Proc}
      (hpc : p.mgr.pc = .handle .write data evs)
      (hcommand : p'.hist.command = p.hist.command) (hpids : p'.pids = p.pids)
      (hclonepid : p'.mgr.clonepid = p.mgr.clonepid)
      (hpc' : p'.mgr.pc = .handle (if r.returned then .unlock else .unlockThrow) data evs) :
      Filing p (.mgr (.regWrite p.mgr.clonepid data r)) p'
  /-- `handle_request` returns. -/
  | complete {ev : Event} {p' : Proc} (htouched : Sys.touched ev = none)
      (hpc : p.mgr.pc.filed = true)
      (hcommand : p'.hist.command = p.hist.command.map ({ · with completed := true }))
      (hpids : p'.pids = p.pids) (hpc' : p'.mgr.pc.setup = false) (hclearing : p'.clearing = none) :
      Filing p ev p'
  | unlink {pid : Int} {k : WaitRet} {p' : Proc} (hpc : p.mgr.pc = .clear .unlink pid k)
      (hcommand : p'.hist.command = p.hist.command) (hpids : p'.pids = p.pids)
      (hpc' : p'.mgr.pc = .clear .unlock pid k) : Filing p (.mgr (.unlink pid)) p'

/-- What a manager knows about its own command. -/
structure Recorded (p : Proc) : Prop where
  own : ∀ pid ∈ p.pids, ∃ data completed, p.hist.command = some ⟨pid, data, completed⟩
  setup : p.mgr.pc.setup = true → ∃ data, p.hist.command = some ⟨p.mgr.clonepid, data, false⟩ ∧
    ∀ d, p.mgr.pc.payload = some d → d = data
  cleared : ∀ pid, p.clearing = some pid → p.mgr.childStatus ≠ .procRunning

theorem Recorded.start (fd : ℕ) : Recorded (start fd) where
  own := fun _ h => by simp [Proc.pids, Proc.start] at h
  setup := fun h => by simp [Proc.start, Pc.setup] at h
  cleared := fun _ _ => (by intro h; cases h)

/-- A step to a point outside the set-up that clears nothing. -/
theorem Filing.plain {m : Manager} {ch : List (Int × Life)} {hi : History}
    (htouched : Sys.touched ev = none) (hcommand : hi.command = p.hist.command)
    (hpids : ∀ pid ∈ ch.map Prod.fst, pid ∈ p.pids) (hpc : m.pc.setup = false)
    (hclearing : clearing { mgr := m, children := ch, hist := hi } = none) :
    Filing p ev { mgr := m, children := ch, hist := hi } :=
  .quiet htouched hcommand hpids
    (fun h => absurd (Pc.setup_of_writing h) (by simp [hpc]))
    (fun h => absurd (Pc.setup_of_filed h) (by simp [hpc]))
    (fun h => absurd h (by simp [hpc])) (fun pid h => by rw [hclearing] at h; cases h)

theorem Step.filing (hcore : Core p) (hrec : Recorded p) (hstep : Proc.Step E p (.mgr l) p') :
    Filing p (.mgr l) p' := by
  have hpids : (∀ c, l ≠ .clone c) → ∀ pid ∈ p'.pids, pid ∈ p.pids := fun hl pid h =>
    (hstep.pids h).resolve_right fun hc => hl pid (Event.mgr.inj hc.1)
  cases hstep with
  | mgr hadm hm =>
    cases hm with
    | sigterm =>
      rw [histAfter_sigterm] at hpids ⊢
      exact .quiet rfl rfl (hpids (by intro _ h; cases h)) id id (fun h => ⟨h, rfl, fun _ => id⟩)
        fun pid h => ⟨hrec.cleared pid h, Or.inl h⟩
    | throws hl =>
      obtain ⟨hpc, hl⟩ := Pc.throwing_of_throws hl
      exact .plain (touched_of_throwing hl) (histAfter_command_of_throwing hpc hl)
        (hpids fun c hc => by rw [hc] at hl; cases hl) rfl rfl
    | unlockThrow hpc =>
      exact .plain rfl (histAfter_command (Pc.noting_of_unlockThrow hpc))
        (hpids (by intro _ h; cases h)) rfl rfl
    -- at the clone the manager has no child, as `clonepid` has been checked at the entry
    | clone hpc hne =>
      have hnil : p.children = [] := hcore.idle (hcore.quiet (Or.inr (by rw [hpc]; rfl)))
      exact .clone (by simp [Proc.pids, childrenAfter, hne, hnil]) (by simp [histAfter, hpc, hne])
        rfl rfl
    | cloneFail hpc => exact .plain rfl (by simp [histAfter, hpc]) (fun pid h => h) rfl rfl
    | create hpc => exact .create hpc (histAfter_command (by rw [hpc]; rfl)) rfl rfl rfl
    | @write data evs r hpc hr =>
      exact .write hpc (histAfter_command (by rw [hpc]; rfl)) rfl rfl (by rw [hr]; rfl)
    | writeFail hpc => exact .write hpc (histAfter_command (by rw [hpc]; rfl)) rfl rfl rfl
    -- a backend command is complete when its answer has been sent
    | replyBackend hpc hb =>
      exact .quiet rfl (by simp [histAfter, hpc, hb]) (hpids (by intro _ h; cases h))
        (fun h => (by cases h))
        (fun _ => by rw [hpc]; rfl) (fun _ => ⟨by rw [hpc]; rfl, rfl, fun _ h => (by cases h)⟩)
        fun _ h => (by cases h)
    | replyForeground hpc hb =>
      exact .complete rfl (by rw [hpc]; rfl) (by simp [histAfter, hpc, hb]) rfl rfl rfl
    | @sent m k data hpc =>
      cases k with
      | started evs =>
        exact .complete rfl (by rw [hpc]; rfl) (by simp [histAfter, hpc, histSent]) rfl rfl rfl
      | _ =>
        exact .plain rfl (by simp [histAfter, hpc, histSent])
          (hpids (by intro _ h; cases h)) rfl rfl
    | sigpipe hpc =>
      exact .plain rfl (by simp [histAfter, hpc]) (hpids (by intro _ h; cases h)) rfl rfl
    | clearUnlink hpc => exact .unlink hpc (histAfter_command (by rw [hpc]; rfl)) rfl rfl
    | @reap k st hpc =>
      -- the pid to be cleared is that of the reaped child
      have hmem := hcore.mem_children (by simpa [admits] using hadm)
      refine .quiet rfl (histAfter_command (by rw [hpc]; rfl)) (hpids (by intro _ h; cases h))
        (Manager.reaped_pc (by intro h; cases h) (by intro h; cases h) (by intro h; cases h))
        (Manager.reaped_pc (by intro h; cases h) (by intro h; cases h) (by intro h; cases h))
        (Manager.reaped_pc (by intro h; cases h) (by intro h; cases h) (by intro h; cases h))
        fun pid h => ?_
      have hst : (p.mgr.reaped st k).childStatus = .procExit := reaped_childStatus
      refine ⟨by simp [hst], Or.inr ?_⟩
      rw [Manager.reaped_clears h]
      simp [Proc.pids, hmem.2.1]
    | argsSurvive hpc =>
      have hr := hcore.quiet (Or.inl (by rw [hpc]; rfl))
      refine .quiet rfl (histAfter_command (by rw [hpc]; rfl)) (hpids (by intro _ h; cases h))
        (Manager.clearEntry_pc (by intro h; cases h) (by intro h; cases h))
        (Manager.clearEntry_pc (by intro h; cases h) (by intro h; cases h))
        (Manager.clearEntry_pc (by intro h; cases h) (by intro h; cases h))
        fun pid h => ⟨?_, Or.inl ?_⟩
      · rwa [Manager.clearEntry_field Manager.childStatus fun _ _ => rfl]
      · rw [Manager.clearEntry_clears h, clearing, hpc]
        rfl
    | @clearLock pid k hpc =>
      refine .quiet rfl (histAfter_command (by rw [hpc]; rfl)) (hpids (by intro _ h; cases h))
        (by intro h; cases h)
        (by intro h; cases h) (by intro h; cases h) fun c h => ?_
      -- `clear_clonepid` goes on with the same pid
      cases h
      have hc : p.clearing = some pid := by rw [clearing, hpc]; rfl
      exact ⟨hrec.cleared pid hc, Or.inl hc⟩
    | waitOther hpc =>
      exact .plain rfl (histAfter_command (by rw [hpc]; rfl)) (hpids (by intro _ h; cases h))
        (by rw [hpc]; rfl)
        (by rw [clearing, hpc]; rfl)
    | loopCheck hpc =>
      exact .plain rfl (histAfter_command (by rw [hpc]; rfl)) (hpids (by intro _ h; cases h))
        (Manager.loopCheck_pc rfl (fun _ _ _ => rfl) fun _ => rfl)
        (Manager.loopCheck_pc (motive := fun pc => pc.clears _ = none) rfl (fun _ _ _ => rfl)
          fun _ => rfl)
    | dispatch evs hpc =>
      exact .plain rfl (histAfter_command (by rw [hpc]; rfl)) (hpids (by intro _ h; cases h))
        (Manager.dispatch_pc rfl (fun _ => rfl) (fun _ _ => rfl) (fun _ _ => rfl) fun _ => rfl)
        (Manager.dispatch_pc (motive := fun pc => pc.clears _ = none) rfl (fun _ => rfl)
          (fun _ _ => rfl) (fun _ _ => rfl) fun _ => rfl)
    | received hpc =>
      exact .plain rfl (histAfter_command (by rw [hpc]; rfl)) (hpids (by intro _ h; cases h))
        (Manager.received_pc rfl rfl rfl rfl rfl rfl)
        (Manager.received_pc (motive := fun pc => pc.clears _ = none) rfl rfl rfl rfl rfl rfl)
    | @waitNone k hpc | @stopKill k hpc | @stopIdle k hpc =>
      exact .plain rfl (histAfter_command (by rw [hpc]; rfl)) (hpids (by intro _ h; cases h))
        (by cases k <;> rfl)
        (by cases k <;> rfl)
    | _ =>
      have hpc := ‹p.mgr.pc = _›
      first
        | exact .plain rfl (histAfter_command (by rw [hpc]; rfl))
            (hpids (by intro _ h; cases h)) rfl rfl
        | exact .quiet rfl (histAfter_command (by rw [hpc]; rfl)) (hpids (by intro _ h; cases h))
            (fun h => (by cases h)) (fun _ => by rw [hpc]; rfl)
            (fun _ => ⟨by rw [hpc]; rfl, rfl, by rw [hpc]; exact fun _ h => h⟩)
            fun _ h => (by cases h)
        | exact .quiet rfl (histAfter_command (by rw [hpc]; rfl)) (hpids (by intro _ h; cases h))
            (fun h => (by cases h)) (fun h => (by cases h))
            (fun _ => ⟨by rw [hpc]; rfl, rfl, by rw [hpc]; exact fun _ h => h⟩)
            fun _ h => (by cases h)

theorem Recorded.step (h : Recorded p) (hcore : Core p) (hstep : Proc.Step E p ev p') :
    Recorded p' := by
  cases ev with
  | exit =>
    have hpids : ∀ pid ∈ p'.pids, pid ∈ p.pids := fun pid hp =>
      (hstep.pids hp).resolve_right fun hev => (by cases hev.1)
    cases hstep with
    | exit => exact ⟨fun pid hp => h.own pid (hpids pid hp), h.setup, h.cleared⟩
  | mgr l =>
    cases Step.filing hcore h hstep with
    | quiet _ hcommand hpids _ _ hsetup hclearing =>
      refine ⟨fun pid hp => ?_, fun hs => ?_, fun pid hc => (hclearing pid hc).1⟩
      · rw [hcommand]
        exact h.own pid (hpids pid hp)
      · obtain ⟨hs, hclone, hpayload⟩ := hsetup hs
        rw [hcommand, hclone]
        obtain ⟨data, hcmd, hdata⟩ := h.setup hs
        exact ⟨data, hcmd, fun d hd => hdata d (hpayload d hd)⟩
    | clone hpids hcommand hclone hpc =>
      refine ⟨fun pid hp => ?_, fun _ => ⟨_, hclone.symm ▸ hcommand, fun d hd => ?_⟩,
        fun c hc => ?_⟩
      · rw [hpids, List.mem_singleton] at hp
        exact ⟨_, _, hp ▸ hcommand⟩
      · rw [hpc] at hd
        exact (Option.some.inj hd).symm
      · rw [clearing, hpc] at hc
        cases hc
    -- the file is made for the command that is being set up, with its message
    | create hpc hcommand hpids hclone hpc' | write hpc hcommand hpids hclone hpc' =>
      obtain ⟨data, hcmd, hdata⟩ := h.setup (by rw [hpc]; rfl)
      refine ⟨fun pid hp => ?_, fun _ => ⟨data, ?_, fun d hd => ?_⟩, fun c hc => ?_⟩
      · rw [hcommand]
        exact h.own pid (hpids ▸ hp)
      · rw [hcommand, hclone]
        exact hcmd
      · rw [hpc'] at hd
        exact hdata d (by rw [hpc]; exact hd)
      · rw [clearing, hpc'] at hc
        cases hc
    | complete _ hpc hcommand hpids hpc' hclearing =>
      refine ⟨fun pid hp => ?_, fun hs => absurd hs (by simp [hpc']), fun c hc => ?_⟩
      · -- the record of the command is marked as complete
        obtain ⟨data, done, hcmd⟩ := h.own pid (hpids ▸ hp)
        exact ⟨data, true, by rw [hcommand, hcmd]; rfl⟩
      · rw [hclearing] at hc
        cases hc
    | unlink hpc hcommand hpids hpc' =>
      refine ⟨fun pid hp => ?_, fun hs => ?_, fun c hc => ?_⟩
      · rw [hcommand]
        exact h.own pid (hpids ▸ hp)
      · rw [hpc'] at hs
        cases hs
      · rw [clearing, hpc'] at hc
        cases hc

/-- The manager relies on the file of its command. -/
def relies (p : Proc) : Bool :=
  p.mgr.pc.writing || p.mgr.pc.filed || p.hist.command.any (·.completed)

/-- The registry has what the manager relies on. -/
structure Kept (registry : Int → Option Bytes) (p : Proc) : Prop where
  writing : p.mgr.pc.writing = true → ∀ pid ∈ p.pids, (registry pid).isSome = true
  data : ∀ pid ∈ p.pids, ∀ data completed, p.hist.command = some ⟨pid, data, completed⟩ →
    p.mgr.pc.filed = true ∨ completed = true → registry pid = some data

variable {reg reg' : Int → Option Bytes}

/-- Without relying on anything. -/
theorem Kept.of_relies (h : p.relies = false) : Kept reg p := by
  simp only [relies, Bool.or_eq_false_iff] at h
  obtain ⟨⟨hw, hf⟩, hc⟩ := h
  refine ⟨fun h => absurd h (by simp [hw]), fun pid _ data done hcmd hor => ?_⟩
  rcases hor with hor | rfl
  · simp [hf] at hor
  · simp [hcmd] at hc

/-- What others do to the registry. -/
theorem Kept.frame (h : Kept reg p)
    (hsame : p.relies = true → ∀ pid ∈ p.pids, reg' pid = reg pid) : Kept reg' p := by
  -- where nothing is relied on there is nothing to show
  by_cases hr : p.relies = true
  · have hsame := hsame hr
    exact ⟨fun hw pid hp => by rw [hsame pid hp]; exact h.writing hw pid hp,
      fun pid hp data done hcmd hf => by rw [hsame pid hp]; exact h.data pid hp data done hcmd hf⟩
  · exact .of_relies (by simpa using hr)

/-- Fewer children. -/
theorem Kept.shrink (h : Kept reg p) (hmgr : p'.mgr = p.mgr)
    (hcommand : p'.hist.command = p.hist.command)
    (hpids : ∀ pid ∈ p'.pids, pid ∈ p.pids) : Kept reg p' :=
  ⟨fun hw pid hp => h.writing (hmgr ▸ hw) pid (hpids pid hp), fun pid hp data done hcmd hf =>
    h.data pid (hpids pid hp) data done (hcommand ▸ hcmd) (hmgr ▸ hf)⟩

/-- What has to hold of a manager so that its steps keep its file. -/
structure Sound (p : Proc) : Prop where
  core : Core p
  launched : Launched p
  recorded : Recorded p

theorem Sound.start (fd : ℕ) : Sound (start fd) := ⟨.start fd, .start fd, .start fd⟩

theorem Sound.step (h : Sound p) (hstep : Proc.Step E p ev p') : Sound p' :=
  ⟨h.core.step hstep, h.launched.step h.core hstep, h.recorded.step h.core hstep⟩

/-- In the set-up there is one command, and it is not complete. -/
theorem Sound.setup (h : Sound p) (hs : p.mgr.pc.setup = true) : p.pids = [p.mgr.clonepid] ∧
    ∃ data, p.hist.command = some ⟨p.mgr.clonepid, data, false⟩ ∧
      ∀ d, p.mgr.pc.payload = some d → d = data := by
  obtain ⟨life, hch, -⟩ := h.core.running (h.launched hs)
  exact ⟨by simp [pids, hch], h.recorded.setup hs⟩

variable {s : Sys}

/-- A manager keeps its own file. -/
theorem Kept.step (h : Kept s.registry p) (hsound : Sound p)
    (hw : ∀ pid data kept, l ≠ .regWrite pid data (.silent kept))
    (hstep : Proc.Step E p (.mgr l) p') : Kept (s.registryAfter (.mgr l)) p' := by
  cases Step.filing hsound.core hsound.recorded hstep with
  | quiet htouched hcommand hpids hwriting hfiled =>
    -- the registry stays
    have hreg : ∀ pid, s.registryAfter (.mgr l) pid = s.registry pid := fun pid =>
      Sys.registryAfter_of_ne (by simp [htouched])
    refine ⟨fun hw pid hp => ?_, fun pid hp data done hcmd hf => ?_⟩
    · rw [hreg]
      exact h.writing (hwriting hw) pid (hpids pid hp)
    · rw [hreg]
      exact h.data pid (hpids pid hp) data done (hcommand ▸ hcmd) (hf.imp_left hfiled)
  | clone hpids hcommand hclone hpc =>
    exact .of_relies (by simp [relies, hpc, hcommand, Pc.writing, Pc.filed])
  | create hpc hcommand hpids hclone hpc' =>
    obtain ⟨hown, data, hcmd, -⟩ := hsound.setup (by rw [hpc]; rfl)
    rw [← hpids] at hown
    refine ⟨fun _ pid hp => ?_, fun pid hp d done hcmd' hf => ?_⟩
    · -- the file is there, and empty; its content is not relied on yet
      rw [hown, List.mem_singleton] at hp
      simp [hp, Sys.registryAfter]
    · rw [hcommand, hcmd] at hcmd'
      cases hcmd'
      simp [hpc', Pc.filed] at hf
  | @write data evs r _ hpc hcommand hpids hclone hpc' =>
    obtain ⟨hown, data', hcmd, hdata⟩ := hsound.setup (by rw [hpc]; rfl)
    cases r with
    | silent kept => exact absurd rfl (hw _ _ _)
    | failed kept =>
      refine .of_relies ?_
      simp only [relies, hpc', hcommand, hcmd]
      rfl
    | complete =>
      -- the file that has been created is still there, so the write fills it
      have hsome : (s.registry p.mgr.clonepid).isSome = true :=
        h.writing (by rw [hpc]; rfl) _ (by simp [hown])
      refine ⟨fun hw => by simp [hpc', FileWrite.returned, Pc.writing] at hw,
        fun pid hp d done hcmd' _ => ?_⟩
      rw [hcommand, hcmd] at hcmd'
      cases hcmd'
      obtain ⟨old, hold⟩ := Option.isSome_iff_exists.mp hsome
      simp [Sys.registryAfter, hold, hdata data (by rw [hpc]; rfl)]
  | complete htouched hpc hcommand hpids hpc' =>
    refine ⟨fun hw => absurd (Pc.setup_of_writing hw) (by simp [hpc']),
      fun pid hp d done hcmd' _ => ?_⟩
    rw [Sys.registryAfter_of_ne (by simp [htouched])]
    obtain ⟨c, hcmd, heq⟩ := Option.map_eq_some_iff.mp (hcommand ▸ hcmd')
    cases heq
    exact h.data c.pid (hpids ▸ hp) c.data c.completed hcmd (Or.inl hpc)
  | @unlink pid k _ hpc hcommand hpids hpc' =>
    have hr : p.mgr.childStatus ≠ .procRunning :=
      hsound.recorded.cleared pid (by rw [clearing, hpc]; rfl)
    -- the command has been reaped: there is none whose file could be lost
    have hnil : p'.pids = [] := by rw [hpids, Proc.pids, hsound.core.idle hr]; rfl
    exact ⟨fun _ pid hp => by simp [hnil] at hp, fun pid hp => by simp [hnil] at hp⟩

/-- A manager comes to rely on a file by creating it. -/
theorem Step.relies (hsound : Sound p) (hstep : Proc.Step E p (.mgr l) p')
    (hr : p'.relies = true) : (∀ pid ∈ p'.pids, pid ∈ p.pids) ∧
      (p.relies = true ∨ l = .regCreate p.mgr.clonepid true ∧ p.pids = [p.mgr.clonepid]) := by
  cases Step.filing hsound.core hsound.recorded hstep with
  | quiet _ hcommand hpids hwriting hfiled =>
    refine ⟨hpids, Or.inl ?_⟩
    simp only [Proc.relies, Bool.or_eq_true, hcommand] at hr ⊢
    exact hr.imp_left fun h => h.imp hwriting hfiled
  | clone hpids hcommand hclone hpc => simp [Proc.relies, hpc, hcommand, Pc.writing, Pc.filed] at hr
  | create hpc hcommand hpids =>
    exact ⟨fun pid hp => hpids ▸ hp, Or.inr ⟨rfl, (hsound.setup (by rw [hpc]; rfl)).1⟩⟩
  | write hpc hcommand hpids =>
    exact ⟨fun pid hp => hpids ▸ hp, Or.inl (by simp [Proc.relies, hpc, Pc.writing])⟩
  | complete _ hpc hcommand hpids =>
    exact ⟨fun pid hp => hpids ▸ hp, Or.inl (by simp [Proc.relies, hpc])⟩
  | unlink hpc hcommand hpids hpc' =>
    refine ⟨fun pid hp => hpids ▸ hp, Or.inl ?_⟩
    simpa [Proc.relies, hpc, hpc', hcommand, Pc.writing, Pc.filed] using hr

/-- A manager changes its own file, or the one that it is to unlink. -/
theorem Step.touched (hsound : Sound p) (hstep : Proc.Step E p (.mgr l) p') {pid : Int}
    (ht : Sys.touched (.mgr l) = some pid) : pid ∈ p.pids ∨ p.clearing = some pid := by
  cases Step.filing hsound.core hsound.recorded hstep with
  | quiet htouched | complete htouched => rw [htouched] at ht; cases ht
  | clone => cases ht
  | create hpc | write hpc =>
    cases ht
    exact Or.inl (by simp [(hsound.setup (by rw [hpc]; rfl)).1])
  | unlink hpc =>
    cases ht
    exact Or.inr (by rw [Proc.clearing, hpc]; rfl)

/-- What a manager is to clear was its own. -/
theorem Step.clearing (hsound : Sound p) (hstep : Proc.Step E p (.mgr l) p') {pid : Int}
    (hc : p'.clearing = some pid) : p.clearing = some pid ∨ pid ∈ p.pids := by
  cases Step.filing hsound.core hsound.recorded hstep with
  | quiet _ _ _ _ _ _ hclearing => exact (hclearing pid hc).2
  | complete _ _ _ _ _ hclearing => rw [hclearing] at hc; cases hc
  | clone _ _ _ hpc' | create _ _ _ _ hpc' | write _ _ _ _ hpc' | unlink _ _ _ hpc' =>
    rw [Proc.clearing, hpc'] at hc
    cases hc

end Proc

namespace Sys

variable {E : Env} {s s' : Sys} {ev : SysEvent}

/-- What is registered: the file of every command whose `handle_request` has completed,
as long as the command has not been reaped. -/
def Registered (s : Sys) : Prop :=
  ∀ (i : ℕ) (p : Proc) (pid : Int) (data : Bytes), s.procs[i]? = some p → pid ∈ p.pids →
    p.hist.command = some ⟨pid, data, true⟩ → s.registry pid = some data

/-- A write to the registry that returns has written everything. -/
def succeeds : SysEvent → Bool
  | .proc _ (.mgr (.regWrite _ _ (.silent _))) => false
  | _ => true

/-- A file is created when no manager is still to unlink the last one of this pid. -/
def clears (s : Sys) : SysEvent → Bool
  | .proc _ (.mgr (.regCreate pid true)) => s.procs.all (·.clearing ≠ some pid)
  | _ => true

/-- The invariant: no manager relies on a file that another one is to unlink, and each
has what it relies on. -/
structure Filed (s : Sys) : Prop where
  live : Live Proc.Sound s
  apart : Apart s
  clearing : ∀ (i j : ℕ) (p q : Proc) (pid : Int), i ≠ j → s.procs[i]? = some p →
    s.procs[j]? = some q → p.clearing = some pid → pid ∈ q.pids → q.relies = false
  kept : ∀ (j : ℕ) (q : Proc), s.procs[j]? = some q → q.Kept s.registry

theorem Filed.start : Filed start :=
  ⟨fun _ _ h => by simp [Sys.start] at h, .start, fun _ _ _ _ _ _ h => by simp [Sys.start] at h,
    fun _ _ h => by simp [Sys.start] at h⟩

/-- When a child of a manager ends or is reaped by init. -/
theorem Filed.shrink (h : Filed s) {i : ℕ} {p : Proc} (p' : Proc) (hi : s.procs[i]? = some p)
    (hmgr : p'.mgr = p.mgr) (hcommand : p'.hist.command = p.hist.command)
    (hpids : ∀ pid ∈ p'.pids, pid ∈ p.pids) {t : Sys} (hprocs : t.procs = s.procs.set i p')
    (hreg : t.registry = s.registry) (hlive : Live Proc.Sound t) (hapart : Apart t) : Filed t := by
  refine ⟨hlive, hapart, fun a b q r pid hne ha hb hq hr => ?_, fun j q hj => ?_⟩
  · rw [hprocs] at ha hb
    have hclear : p'.clearing = p.clearing := by rw [Proc.clearing, hmgr]; rfl
    have hrelies : p'.relies = p.relies := by rw [Proc.relies, hmgr, hcommand]; rfl
    -- the one that is to unlink, or the one that relies, or neither is the process that steps
    rcases getElem?_set_cases ha with ⟨rfl, rfl⟩ | ⟨-, ha'⟩ <;>
      rcases getElem?_set_cases hb with ⟨rfl, rfl⟩ | ⟨-, hb'⟩
    · exact absurd rfl hne
    · exact h.clearing a b p r pid hne hi hb' (hclear ▸ hq) hr
    · exact hrelies ▸ h.clearing a b q p pid hne ha' hi hq (hpids pid hr)
    · exact h.clearing a b q r pid hne ha' hb' hq hr
  · rw [hprocs] at hj
    rw [hreg]
    rcases getElem?_set_cases hj with ⟨rfl, rfl⟩ | ⟨-, hj⟩
    · exact (h.kept j p hi).shrink hmgr hcommand hpids
    · exact h.kept j q hj

/-- A step keeps the invariant when files are created for cleared pids only. -/
theorem Filed.step (h : Filed s) (hw : succeeds ev = true) (hC : s.clears ev = true)
    (hstep : Step E s ev s') : Filed s' := by
  have hlive := h.live.step Proc.Sound.start (fun _ _ _ hI hp => hI.step hp) hstep
  have hapart := h.apart.step hstep
  cases hstep with
  | fork fd =>
    refine ⟨hlive, hapart, fun a b q r pid hne ha hb hq hr => ?_, fun j q hj => ?_⟩
    · rcases getElem?_concat_cases ha with rfl | ha
      · cases hq
      rcases getElem?_concat_cases hb with rfl | hb
      · rfl
      exact h.clearing a b q r pid hne ha hb hq hr
    · rcases getElem?_concat_cases hj with rfl | hj
      · exact .of_relies rfl
      · exact h.kept j q hj
  | @proc i e p p' hi hadm hp =>
    cases e with
    | exit c st =>
      have hpids : ∀ pid ∈ p'.pids, pid ∈ p.pids := fun pid hmem =>
        (hp.pids hmem).resolve_right fun hev => (by cases hev.1)
      cases hp with
      | exit => refine h.shrink _ hi ?_ ?_ hpids rfl rfl hlive hapart <;> rfl
    | mgr l =>
      have hsound := h.live i p hi hp.isGone
      refine ⟨hlive, hapart, fun a b q r pid hne ha hb hq hr => ?_, fun j q hj => ?_⟩
      · rcases getElem?_set_cases ha with ⟨rfl, rfl⟩ | ⟨-, ha'⟩ <;>
          rcases getElem?_set_cases hb with ⟨rfl, rfl⟩ | ⟨-, hb'⟩
        · exact absurd rfl hne
        · -- the pid to be cleared has been this manager's, and not the other one's
          rcases hp.clearing hsound hq with hq | hmem
          · exact h.clearing a b p r pid hne hi hb' hq hr
          · exact absurd hr (h.apart.commands a b p r pid hne hi hb' hmem)
        · -- it comes to rely on a file by creating it; no other is still to unlink this one
          by_contra hrel
          obtain ⟨hpids, hrel | ⟨rfl, hown⟩⟩ := hp.relies hsound (by simpa using hrel)
          · rw [h.clearing a b q p pid hne ha' hi hq (hpids pid hr)] at hrel
            cases hrel
          · have hpid := hpids pid hr
            rw [hown, List.mem_singleton] at hpid
            simp only [clears, List.all_eq_true, decide_eq_true_eq] at hC
            exact hC q (List.mem_of_getElem? ha') (hpid ▸ hq)
        · exact h.clearing a b q r pid hne ha' hb' hq hr
      · rcases getElem?_set_cases hj with ⟨rfl, rfl⟩ | ⟨hji, hj⟩
        · -- its own file, and then the files of the others, which it does not touch
          refine (h.kept j p hi).step hsound (fun pid data kept hl => ?_) hp
          rw [hl] at hw
          cases hw
        · refine (h.kept j q hj).frame fun hrel pid hmem => registryAfter_of_ne fun ht => ?_
          rcases hp.touched hsound ht with hown | hclear
          · exact h.apart.commands i j p q pid (Ne.symm hji) hi hj hown hmem
          · rw [h.clearing i j p q pid (Ne.symm hji) hi hj hclear hmem] at hrel
            cases hrel
  | @orphan i c st p hi hgone =>
    refine h.shrink { p with children := p.children.erase (c, .zombie st) } hi rfl rfl
      (fun pid hmem => ?_) rfl rfl hlive hapart
    obtain ⟨x, hx, rfl⟩ := List.mem_map.mp hmem
    exact List.mem_map.mpr ⟨x, List.mem_of_mem_erase hx, rfl⟩
  | spawn | vanish => exact ⟨hlive, hapart, h.clearing, h.kept⟩

theorem Filed.registered (h : Filed s) : Registered s := fun i p pid data hi hp hcmd =>
  (h.kept i p hi).data pid hp data true hcmd (Or.inr rfl)

/-- **No registration is lost while pids are cleared before they are registered again.**
When all writes to the registry succeed and no file is created for a pid that another
manager is still to clear, every completed and unreaped command is registered with the
message that it was started by. -/
theorem registered_of_clears {evs : List SysEvent}
    (hw : Machine.StepsMeet (step E) (fun _ ev => succeeds ev = true) start evs)
    (hC : Machine.StepsMeet (step E) (fun s ev => s.clears ev = true) start evs) :
    Machine.Always (step E) Registered start evs :=
  Machine.always_of_stepsMeet
    (fun _ _ _ h hC hs => Filed.step h hC.1 hC.2 (step_cases hs))
    (fun _ h => Filed.registered h) Filed.start (Machine.StepsMeet.and.mpr ⟨hw, hC⟩)

/-- A manager serves `/bin/ls` as process 100. -/
def lsEvents (i : ℕ) : List SysEvent := .fork 5 (50 + i) :: steps i Proc.lsLabels

/-- The pid of `/bin/ls` is used again after its file has been removed. -/
theorem registered_of_clears_ls :
    Machine.Always (step Proto3.env) Registered start
      (lsEvents 0 ++ .proc 0 (.exit 100 (.exited 0)) :: steps 0 (Proc.reapLabels 100 (.exited 0)) ++
        lsEvents 1) :=
  registered_of_clears (by decide +kernel) (by decide +kernel)

/-- The first manager has reaped process 100 and is slow to unlink its file: it removes
that of the second command with this pid. -/
theorem not_registered :
    ¬ ∀ evs s, Machine.exec (step Proto3.env) start evs = some s →
      Machine.StepsMeet (step Proto3.env) (fun _ ev => succeeds ev = true) start evs →
      s.Registered := by
  intro hall
  obtain ⟨s, hrun, hs⟩ := Machine.exec_of_any
    (show (Machine.exec (step Proto3.env) start
      (lsEvents 0 ++ .proc 0 (.exit 100 (.exited 0)) ::
        steps 0 [.epollWait .eintr, .tau, .waitpid (some (100, .exited 0))] ++ lsEvents 1 ++
        steps 0 [.flock .ex, .unlink 100])).any
      (fun s => s.registry 100 == none && s.procs[1]?.any fun p => p.pids == [100] &&
        p.hist.command == some ⟨100, Proc.lsData.bytes, true⟩) = true by decide +kernel)
  simp only [Bool.and_eq_true, Option.any_eq_true, beq_iff_eq] at hs
  obtain ⟨hnone, p, hp, hpids, hcmd⟩ := hs
  have hreg := hall _ s hrun (by decide +kernel) 1 p 100 _ hp (by simp [hpids]) hcmd
  rw [hnone] at hreg
  cases hreg

end Sys
end Srun
