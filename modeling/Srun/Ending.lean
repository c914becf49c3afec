import Srun.Answers

/-!
# What a manager leaves behind

A manager that ends should have reaped its command and unlinked the registry file
of it. `manager_destroy` sees to that on most ways out: it signals the command,
sleeps for two seconds and calls `wait_child`, which unlinks. There are three ways
past it (`Orderly` excludes them): SIGPIPE in a write to the connection, which
kills the manager on the spot; a command that is still there when the two seconds
are over, since `wait_child` does not wait; and the log line of `wait_child`, which
reads an argument of the command that a later message may have removed.

In an orderly run the registry file exists only while the command is unreaped or
`clear_clonepid` is about to unlink it (`Tidy`). The first step that is not orderly
ends the manager, or takes it past its last `wait_child`, with the child or the file
still there, and nothing removes them any more (`Leftover`).
-/

namespace Srun

namespace Pc

/-- The command has been cloned and its registry file is not there yet. -/
def unregistered : Pc → Bool
  | .handle .leaf _ _ | .handle .memlimit _ _ | .handle .memswExists _ _
  | .handle .memswlimit _ _ | .handle .procs _ _ | .handle .notify _ _ | .handle .lock _ _
  | .handle .create _ _ | .handle .unlockThrow _ _ => true
  | pc => pc.ending

/-- The command has been found and not been cloned. -/
def found : Pc → Bool
  | .handle .loadOut _ _ | .handle .loadErr _ _ | .handle .clone _ _ => true
  | _ => false

/-- After the reap, before the unlink. -/
def filing : Pc → Bool
  | .argsRead _ | .clear .lock _ _ | .clear .unlink _ _ => true
  | _ => false

/-- Nothing is reaped any more. -/
def closing : Pc → Bool
  | .destroy .close _ | .gone _ => true
  | _ => false

/-- The points that the invariant does not single out. -/
def neutral (pc : Pc) : Bool := !pc.found && !pc.filing && !pc.closing

/-- The points from which a step can change the list of registry files. -/
def registering : Pc → Bool
  | .handle .create _ _ | .clear .unlink _ _ => true
  | _ => false

theorem registering_of_throwing {pc : Pc} (h : pc.throwing = true ∨ pc.unlockThrow = true) :
    pc.registering = false := by
  unfold throwing unlockThrow at h
  split at h <;> split at h <;> first | rfl | (rcases h with h | h <;> cases h)

theorem filing_of_throwing {pc : Pc} (h : pc.throwing = true ∨ pc.unlockThrow = true) :
    pc.filing = false := by
  unfold throwing unlockThrow at h
  split at h <;> split at h <;> first | rfl | (rcases h with h | h <;> cases h)

/-- Between the reap and the unlink nothing is set up and nothing is closed. -/
theorem others_of_filing {pc : Pc} (h : pc.filing = true) :
    pc.setup = false ∧ pc.found = false ∧ pc.closing = false := by
  unfold filing at h
  split at h <;> first | exact ⟨rfl, rfl, rfl⟩ | cases h

end Pc

namespace Proc

variable {E : Env} {p p' : Proc} {ev : Event} {l : Label}

theorem histSent_registered (h : History) (m : Message) (k : SendRet) :
    (histSent h m k).registered = h.registered := by
  cases k <;> rfl

theorem histAfter_registered (h : p.mgr.pc.registering = false) :
    (p.histAfter E l).registered = p.hist.registered := by
  unfold histAfter
  split <;> first
    | rfl
    | (split <;> first | rfl | exact histSent_registered ..)
    | simp_all [Pc.registering]

/-- The invariant of an orderly run. -/
structure Tidy (p : Proc) : Prop where
  core : Core p
  launched : Launched p
  /-- The running command has its file, unless the set-up has not come so far; then
  its first argument is still there. -/
  running : p.mgr.childStatus = .procRunning → (∀ q ∈ p.hist.registered, q = p.mgr.clonepid) ∧
    (p.hist.registered = [] → p.mgr.request.args ≠ [] ∧ p.mgr.pc.unregistered = true)
  idle : p.mgr.childStatus ≠ .procRunning → p.mgr.pc.filing = false → p.hist.registered = []
  found : p.mgr.pc.found = true → p.mgr.request.args ≠ []
  /-- The log line is reached with the file still there only. -/
  reading : ∀ k, p.mgr.pc = .argsRead k →
    0 < p.mgr.clonepid ∧ p.hist.registered ≠ [] ∧ ∀ q ∈ p.hist.registered, q = p.mgr.clonepid
  clearing : ∀ pid k, p.mgr.pc = .clear .lock pid k ∨ p.mgr.pc = .clear .unlink pid k →
    ∀ q ∈ p.hist.registered, q = pid
  filed : p.mgr.pc.filing = true → p.mgr.childStatus ≠ .procRunning
  closing : p.mgr.pc.closing = true → p.mgr.childStatus ≠ .procRunning

theorem Tidy.start (fd : ℕ) : Tidy (start fd) where
  core := Core.start fd
  launched := Launched.start fd
  running := fun h => by simp [Proc.start] at h
  idle := fun _ _ => rfl
  found := fun h => by simp [Proc.start, Pc.found] at h
  reading := fun _ h => by simp [Proc.start] at h
  clearing := fun _ _ h => by simp [Proc.start] at h
  filed := fun h => by simp [Proc.start, Pc.filing] at h
  closing := fun h => by simp [Proc.start, Pc.closing] at h

/-- **Frame rule.** A step between points that are not singled out, which leaves the
command and the list of files alone, preserves the invariant. -/
theorem Tidy.frame (h : Tidy p) {m : Manager} {hi : History}
    (hcore : Core { mgr := m, children := p.children, hist := hi })
    (hlaunched : Launched { mgr := m, children := p.children, hist := hi })
    (hreg : hi.registered = p.hist.registered) (hfil : p.mgr.pc.filing = false)
    (hst : m.childStatus = p.mgr.childStatus) (hclone : m.clonepid = p.mgr.clonepid)
    (hun : p.mgr.pc.unregistered = true →
      m.pc.unregistered = true ∧ m.request.args = p.mgr.request.args)
    (hpc : m.pc.neutral = true) : Tidy { mgr := m, children := p.children, hist := hi } := by
  simp only [Pc.neutral, Bool.and_eq_true, Bool.not_eq_true'] at hpc
  obtain ⟨⟨hfound, hfil'⟩, hclose⟩ := hpc
  constructor
  case core => exact hcore
  case launched => exact hlaunched
  case running =>
    intro hr
    rw [hreg, hclone]
    refine (h.running (hst ▸ hr)).imp_right fun hun' hnil => ?_
    obtain ⟨hargs, hpc⟩ := hun' hnil
    obtain ⟨hpc', hargs'⟩ := hun hpc
    exact ⟨by rwa [hargs'], hpc'⟩
  case idle => exact fun hr _ => hreg.trans (h.idle (by rwa [← hst]) hfil)
  case found =>
    intro hf
    simp [hfound] at hf
  case reading =>
    intro k hk
    simp only at hk
    simp [hk, Pc.filing] at hfil'
  case clearing =>
    intro pid k hk
    simp only at hk
    rcases hk with hk | hk <;> simp [hk, Pc.filing] at hfil'
  case filed =>
    intro hf
    simp [hfil'] at hf
  case closing =>
    intro hc
    simp [hclose] at hc

/-- Between commands there are no files. -/
theorem Tidy.unregistered (h : Tidy p) (hr : p.mgr.childStatus ≠ .procRunning)
    (hreg : p.mgr.pc.registering = false) (hfil : p.mgr.pc.filing = false) :
    (p.histAfter E l).registered = [] :=
  (histAfter_registered hreg).trans (h.idle hr hfil)

/-- Where nothing runs and no file is left. -/
theorem Tidy.of_idle (hcore : Core p) (hlaunched : Launched p)
    (hst : p.mgr.childStatus ≠ .procRunning) (hreg : p.hist.registered = [])
    (hfound : p.mgr.pc.found = true → p.mgr.request.args ≠ []) (hfil : p.mgr.pc.filing = false) :
    Tidy p := by
  constructor
  case core => exact hcore
  case launched => exact hlaunched
  case running => exact fun hr => absurd hr hst
  case idle => exact fun _ _ => hreg
  case found => exact hfound
  case reading =>
    intro k hk
    simp [hk, Pc.filing] at hfil
  case clearing =>
    intro pid k hk
    rcases hk with hk | hk <;> simp [hk, Pc.filing] at hfil
  case filed => exact fun _ => hst
  case closing => exact fun _ => hst

/-- Where the command runs. -/
theorem Tidy.of_running (hcore : Core p) (hlaunched : Launched p)
    (hst : p.mgr.childStatus = .procRunning)
    (hreg : ∀ q ∈ p.hist.registered, q = p.mgr.clonepid)
    (hnil : p.hist.registered = [] → p.mgr.request.args ≠ [] ∧ p.mgr.pc.unregistered = true)
    (hpc : p.mgr.pc.neutral = true) : Tidy p := by
  simp only [Pc.neutral, Bool.and_eq_true, Bool.not_eq_true'] at hpc
  obtain ⟨⟨hfound, hfil⟩, hclose⟩ := hpc
  constructor
  case core => exact hcore
  case launched => exact hlaunched
  case running => exact fun _ => ⟨hreg, hnil⟩
  case idle => exact fun hr _ => absurd hst hr
  case found => exact fun hf => absurd (hfound.symm.trans hf) nofun
  case reading =>
    intro k hk
    simp [hk, Pc.filing] at hfil
  case clearing =>
    intro pid k hk
    rcases hk with hk | hk <;> simp [hk, Pc.filing] at hfil
  case filed => exact fun hf => absurd (hfil.symm.trans hf) nofun
  case closing => exact fun hc => absurd (hclose.symm.trans hc) nofun

/-- Between the reap and the unlink. -/
theorem Tidy.of_filing (hcore : Core p) (hst : p.mgr.childStatus ≠ .procRunning)
    (hpc : p.mgr.pc.filing = true)
    (hreading : ∀ k, p.mgr.pc = .argsRead k →
      0 < p.mgr.clonepid ∧ p.hist.registered ≠ [] ∧ ∀ q ∈ p.hist.registered, q = p.mgr.clonepid)
    (hclearing : ∀ pid k, p.mgr.pc = .clear .lock pid k ∨ p.mgr.pc = .clear .unlink pid k →
      ∀ q ∈ p.hist.registered, q = pid) : Tidy p := by
  obtain ⟨hsetup, hfound, hclose⟩ := Pc.others_of_filing hpc
  constructor
  case core => exact hcore
  case launched => exact fun hs => absurd (hsetup.symm.trans hs) nofun
  case running => exact fun hr => absurd hr hst
  case idle => exact fun _ hf => absurd (hpc.symm.trans hf) nofun
  case found => exact fun hf => absurd (hfound.symm.trans hf) nofun
  case reading => exact hreading
  case clearing => exact hclearing
  case filed => exact fun _ => hst
  case closing => exact fun hc => absurd (hclose.symm.trans hc) nofun

/-- A step between points of the loop. -/
theorem Tidy.loop (h : Tidy p) {m : Manager}
    (hcore : Core { mgr := m, children := p.children, hist := p.histAfter E l })
    (hlaunched : Launched { mgr := m, children := p.children, hist := p.histAfter E l })
    (hfrom : p.mgr.pc.registering = false ∧ p.mgr.pc.filing = false ∧ p.mgr.pc.unregistered = false)
    (hst : m.childStatus = p.mgr.childStatus) (hclone : m.clonepid = p.mgr.clonepid)
    (hpc : m.pc.neutral = true) :
    Tidy { mgr := m, children := p.children, hist := p.histAfter E l } :=
  h.frame hcore hlaunched (histAfter_registered hfrom.1) hfrom.2.1 hst hclone
    (fun hu => absurd (hfrom.2.2.symm.trans hu) nofun) hpc

/-- A step with no command, which registers none. -/
theorem Tidy.remains_idle (h : Tidy p) {m : Manager} {cs : List (Int × Life)}
    (hcore : Core { mgr := m, children := cs, hist := p.histAfter E l })
    (hlaunched : Launched { mgr := m, children := cs, hist := p.histAfter E l })
    (hr : p.mgr.childStatus ≠ .procRunning)
    (hfrom : p.mgr.pc.registering = false ∧ p.mgr.pc.filing = false)
    (hst : m.childStatus = p.mgr.childStatus) (hfil : m.pc.filing = false)
    (hfound : m.pc.found = true → m.request.args ≠ []) :
    Tidy { mgr := m, children := cs, hist := p.histAfter E l } :=
  .of_idle hcore hlaunched (fun hrun => hr (hst.symm.trans hrun))
    (h.unregistered hr hfrom.1 hfrom.2) hfound hfil

/-- The condition on a step. -/
structure Orderly (p : Proc) (ev : Event) : Prop where
  /-- No SIGPIPE while the command runs. -/
  pipe : ∀ data, ev = .mgr (.write data .sigpipe) → p.mgr.childStatus ≠ .procRunning
  /-- The manager does not die of reading an argument that is not there. -/
  args : ev ≠ .mgr (.argsRead true)
  /-- The command has ended when `manager_destroy` looks for it for the last time. -/
  reap : ∀ how, p.mgr.pc = .waitChild (.destroy how) → ev = .mgr (.waitpid none) →
    p.children = []

/-- The manager is past its last `wait_child` and has left something behind. -/
structure Leftover (p : Proc) : Prop where
  closing : p.mgr.pc.closing = true
  left : p.children ≠ [] ∨ p.hist.registered ≠ []

/-- Nothing is removed any more. -/
theorem Leftover.step (h : Leftover p) (hstep : Proc.Step E p ev p') : Leftover p' := by
  obtain ⟨hclosing, hleft⟩ := h
  cases hstep with
  | exit =>
    refine ⟨hclosing, hleft.imp_left fun hne hnil => hne ?_⟩
    exact List.map_eq_nil_iff.mp hnil
  | mgr hadm hm =>
    cases hm with
    | sigterm => exact ⟨hclosing, by rwa [histAfter_sigterm]⟩
    | throws hl =>
      have hpc := (Pc.throwing_of_throws hl).1
      cases hp : p.mgr.pc <;> simp_all [Pc.closing, Pc.throwing]
    | unlockThrow hpc =>
      cases hp : p.mgr.pc <;> simp_all [Pc.closing, Pc.unlockThrow]
    | destroyClose hpc => exact ⟨rfl, by rwa [histAfter_registered (by rw [hpc]; rfl)]⟩
    | _ => simp [‹p.mgr.pc = _›, Pc.closing] at hclosing

/-- The file of a reaped command is about to be unlinked. -/
theorem Tidy.clearEntry {m : Manager} {hi : History} {k : WaitRet}
    (hcore : Core { mgr := m.clearEntry k, children := [], hist := hi })
    (hst : m.childStatus ≠ .procRunning) (hpos : 0 < m.clonepid)
    (hreg : ∀ q ∈ hi.registered, q = m.clonepid) :
    Tidy { mgr := m.clearEntry k, children := [], hist := hi } := by
  have heq : m.clearEntry k = { m with clonepid := 0, pc := .clear .lock m.clonepid k } :=
    if_pos hpos
  rw [heq] at hcore ⊢
  refine .of_filing hcore hst rfl (fun _ hk => (by cases hk)) fun pid k' hk => ?_
  -- the pid to be cleared is the one that `clonepid` had
  rcases hk with hk | hk <;> cases hk
  exact hreg

/-- Reaping the command. -/
theorem Tidy.reap (h : Tidy p) {st : WaitStatus} {k : WaitRet} {hi : History}
    (hmem : (p.mgr.clonepid, .zombie st) ∈ p.children) (hreg : hi.registered = p.hist.registered)
    (hcore : Core { mgr := p.mgr.reaped st k
                    children := p.children.erase (p.mgr.clonepid, .zombie st), hist := hi }) :
    Tidy { mgr := p.mgr.reaped st k
           children := p.children.erase (p.mgr.clonepid, .zombie st), hist := hi } := by
  obtain ⟨hrun, hch, -, hpos⟩ := h.core.mem_children hmem
  rw [hch, List.erase_cons_head] at hcore ⊢
  have hsub : ∀ q ∈ hi.registered, q = p.mgr.clonepid := hreg ▸ (h.running hrun).1
  cases st with
  | exited code => exact .clearEntry hcore (by intro h; cases h) hpos hsub
  | other => exact .clearEntry hcore (by intro h; cases h) hpos hsub
  | signaled sig =>
    simp only [Manager.reaped] at hcore ⊢
    split
    · next hargs =>
      rw [if_pos hargs] at hcore
      -- the argument has been removed after the set-up
      have hfile : hi.registered ≠ [] := fun hnil =>
        ((h.running hrun).2 (hreg ▸ hnil)).1 hargs
      refine .of_filing hcore (by intro h; cases h) rfl (fun _ _ => ⟨hpos, hfile, hsub⟩) ?_
      intro _ _ hk
      rcases hk with hk | hk <;> cases hk
    · next hargs =>
      rw [if_neg hargs] at hcore
      exact .clearEntry hcore (by intro h; cases h) hpos hsub

/-- An orderly step preserves the invariant. -/
theorem Tidy.step (h : Tidy p) (hC : Orderly p ev) (hstep : Proc.Step E p ev p') : Tidy p' := by
  have hcore := h.core.step hstep
  have hlaunched := h.launched.step h.core hstep
  cases hstep with
  | exit =>
    exact ⟨hcore, hlaunched, h.running, h.idle, h.found, h.reading, h.clearing, h.filed, h.closing⟩
  | mgr hadm hm =>
    cases hm with
    | sigterm =>
      rw [histAfter_sigterm] at hcore hlaunched ⊢
      exact ⟨hcore, hlaunched, h.running, h.idle, h.found, h.reading, h.clearing, h.filed,
        h.closing⟩
    | throws hl =>
      obtain ⟨hpc, hl⟩ := Pc.throwing_of_throws hl
      rw [childrenAfter_of_throwing hl] at hcore hlaunched ⊢
      exact h.frame hcore hlaunched (histAfter_registered (Pc.registering_of_throwing (.inl hpc)))
        (Pc.filing_of_throwing (.inl hpc)) rfl rfl (fun _ => ⟨rfl, rfl⟩) rfl
    | unlockThrow hpc =>
      exact h.frame hcore hlaunched (histAfter_registered (Pc.registering_of_throwing (.inr hpc)))
        (Pc.filing_of_throwing (.inr hpc)) rfl rfl (fun _ => ⟨rfl, rfl⟩) rfl
    | loopCheck hpc =>
      exact h.loop hcore hlaunched (by rw [hpc]; exact ⟨rfl, rfl, rfl⟩) rfl rfl
        (Manager.loopCheck_pc rfl (fun _ _ _ => rfl) fun _ => rfl)
    | dispatch evs hpc =>
      exact h.loop hcore hlaunched (by rw [hpc]; exact ⟨rfl, rfl, rfl⟩) rfl rfl
        (Manager.dispatch_pc rfl (fun _ => rfl) (fun _ _ => rfl) (fun _ _ => rfl) fun _ => rfl)
    | received hpc hdata hparse =>
      exact h.loop hcore hlaunched (by rw [hpc]; exact ⟨rfl, rfl, rfl⟩)
        (Manager.received_field Manager.childStatus fun _ _ _ => rfl)
        (Manager.received_field Manager.clonepid fun _ _ _ => rfl)
        (Manager.received_pc rfl rfl rfl rfl rfl rfl)
    | findFound hpc hf =>
      exact h.remains_idle hcore hlaunched (h.core.quiet (Or.inr (by rw [hpc]; rfl)))
        (by rw [hpc]; exact ⟨rfl, rfl⟩) rfl rfl fun _ => findCommand_args_ne_nil hf
    | loadOut hpc | loadErr hpc =>
      exact h.remains_idle hcore hlaunched (h.core.quiet (Or.inr (by rw [hpc]; rfl)))
        (by rw [hpc]; exact ⟨rfl, rfl⟩) rfl rfl fun _ => h.found (by rw [hpc]; rfl)
    | cloneFail hpc =>
      exact h.remains_idle hcore hlaunched (h.core.quiet (Or.inr (by rw [hpc]; rfl)))
        (by rw [hpc]; exact ⟨rfl, rfl⟩) rfl rfl fun hf => (by cases hf)
    | @clone _ _ pid hpc hpid =>
      have hnil : (p.histAfter E (.clone pid)).registered = [] :=
        h.unregistered (h.core.quiet (Or.inr (by rw [hpc]; rfl))) (by rw [hpc]; rfl)
          (by rw [hpc]; rfl)
      exact .of_running hcore hlaunched rfl (by simp [hnil])
        (fun _ => ⟨h.found (by rw [hpc]; rfl), rfl⟩) rfl
    | create hpc =>
      have hr := h.launched (by rw [hpc]; rfl)
      have hreg : (p.histAfter E (.regCreate p.mgr.clonepid true)).registered =
          p.mgr.clonepid :: p.hist.registered := by simp [histAfter, hpc]
      exact .of_running hcore hlaunched hr (by simpa [hreg] using (h.running hr).1)
        (by simp [hreg]) rfl
    | reap hpc =>
      exact h.reap (by simpa [admits] using hadm) (histAfter_registered (by rw [hpc]; rfl)) hcore
    | @waitOther k pid st hpc hpid =>
      have hmem : (pid, Life.zombie st) ∈ p.children := by simpa [admits] using hadm
      exact absurd (h.core.mem_children hmem).2.2.1.symm hpid
    | argsDie => exact absurd rfl hC.args
    | argsSurvive hpc =>
      obtain ⟨hpos, -, hreg⟩ := h.reading _ hpc
      have hr := h.filed (by rw [hpc]; rfl)
      simp only [childrenAfter, h.core.idle hr] at hcore ⊢
      exact .clearEntry hcore hr hpos (by rwa [histAfter_registered (by rw [hpc]; rfl)])
    | clearLock hpc =>
      refine .of_filing hcore (h.filed (by rw [hpc]; rfl)) rfl (fun _ hk => (by cases hk)) ?_
      intro pid k hk
      rw [histAfter_registered (by rw [hpc]; rfl)]
      rcases hk with hk | hk <;> cases hk
      exact h.clearing _ _ (Or.inl hpc)
    | @clearUnlink pid k hpc =>
      have hr := h.filed (by rw [hpc]; rfl)
      have hreg : (p.histAfter E (.unlink pid)).registered = [] := by
        simpa [histAfter, hpc] using h.clearing pid k (Or.inr hpc)
      exact .of_idle hcore hlaunched hr hreg (fun hf => (by cases hf)) rfl
    | @waitNone k hpc =>
      cases k with
      | loop =>
        exact h.loop hcore hlaunched (by rw [hpc]; exact ⟨rfl, rfl, rfl⟩) rfl rfl rfl
      | destroy how =>
        have hr : p.mgr.childStatus ≠ .procRunning := fun hr => by
          obtain ⟨life, hch, -⟩ := h.core.running hr
          simp [hC.reap how hpc rfl] at hch
        exact h.remains_idle hcore hlaunched hr (by rw [hpc]; exact ⟨rfl, rfl⟩) rfl rfl
          fun hf => (by cases hf)
    | destroyIdle hpc hrun =>
      exact h.remains_idle hcore hlaunched hrun (by rw [hpc]; exact ⟨rfl, rfl⟩) rfl rfl
        fun hf => (by cases hf)
    | destroyClose hpc =>
      exact h.remains_idle hcore hlaunched (h.closing (by rw [hpc]; rfl))
        (by rw [hpc]; exact ⟨rfl, rfl⟩) rfl rfl fun hf => (by cases hf)
    | sigpipe hpc =>
      exact h.remains_idle hcore hlaunched (hC.pipe _ rfl) (by rw [hpc]; exact ⟨rfl, rfl⟩) rfl rfl
        fun hf => (by cases hf)
    -- the points of the loop and of `send_message` are neutral
    | @stopKill k hpc | @stopIdle k hpc =>
      exact h.loop hcore hlaunched (by rw [hpc]; exact ⟨rfl, rfl, rfl⟩) rfl rfl
        (by cases k <;> rfl)
    | @sent m k data hpc =>
      exact h.loop hcore hlaunched (by rw [hpc]; exact ⟨rfl, rfl, rfl⟩) rfl rfl
        (by cases k <;> rfl)
    | createFail hpc =>
      -- no file has been created
      have hsame : (p.histAfter E (.regCreate p.mgr.clonepid false)).registered =
          p.hist.registered := by simp [histAfter, hpc]
      exact h.frame hcore hlaunched hsame (by rw [hpc]; rfl) rfl rfl (fun _ => ⟨rfl, rfl⟩) rfl
    | clearUnlock hpc | clearRmdir hpc =>
      exact h.frame hcore hlaunched (histAfter_registered (by rw [hpc]; rfl)) (by rw [hpc]; rfl)
        rfl rfl (fun hu => ⟨by rw [hpc] at hu; exact hu, rfl⟩) rfl
    | _ =>
      have hpc := ‹p.mgr.pc = _›
      first
        | exact h.frame hcore hlaunched (histAfter_registered (by rw [hpc]; rfl))
            (by rw [hpc]; rfl) rfl rfl (fun _ => ⟨rfl, rfl⟩) rfl
        | exact h.loop hcore hlaunched (by rw [hpc]; exact ⟨rfl, rfl, rfl⟩) rfl rfl rfl

/-- A step that is not orderly leaves the command or its file behind. -/
theorem Tidy.leftover (h : Tidy p) (hC : ¬ Orderly p ev) (hstep : Proc.Step E p ev p') :
    Leftover p' := by
  have hleft : p.mgr.childStatus = .procRunning → p.children ≠ [] := fun hr => by
    obtain ⟨life, hch, -⟩ := h.core.running hr
    simp [hch]
  cases hstep with
  | exit =>
    exact absurd ⟨(by intro _ h; cases h), (by intro h; cases h), (by intro _ _ h; cases h)⟩ hC
  | mgr hadm hm =>
    cases hm with
    | sigpipe hpc =>
      -- the manager is killed while the command runs
      refine ⟨rfl, Or.inl (hleft ?_)⟩
      by_contra hr
      exact hC ⟨fun _ _ => hr, (by intro h; cases h), (by intro _ _ h; cases h)⟩
    | argsDie hpc =>
      -- the command has been reaped, and its file is still there
      have hreg := (h.reading _ hpc).2.1
      exact ⟨rfl, Or.inr (by rwa [histAfter_registered (by rw [hpc]; rfl)])⟩
    | @waitNone k hpc =>
      cases k with
      | loop => exact absurd ⟨(by intro _ h; cases h), (by intro h; cases h),
        by rw [hpc]; intro _ h; cases h⟩ hC
      | destroy how =>
        -- `manager_destroy` has not waited long enough
        refine ⟨rfl, Or.inl fun hnil => hC ⟨(by intro _ h; cases h), (by intro h; cases h),
          fun _ _ _ => hnil⟩⟩
    | throws hl =>
      obtain ⟨hpc, hl⟩ := Pc.throwing_of_throws hl
      refine absurd ⟨fun data hev => ?_, fun hev => ?_, fun how hpc' => ?_⟩ hC
      · cases hev; cases hl
      · cases hev; cases hl
      · rw [hpc'] at hpc; cases hpc
    | _ =>
      exact absurd ⟨(by intro _ h; cases h), (by intro h; cases h), (by intro _ _ h; cases h)⟩ hC

/-- **No leftovers, in orderly runs and only in them.** A manager that is gone has
reaped its command and unlinked its registry files if and only if every step of its
run was orderly. -/
theorem no_leftovers_iff {fd : ℕ} {evs : List Event} {how : Exit}
    (hrun : Machine.exec (Proc.step E) (Proc.start fd) evs = some p) (hpc : p.mgr.pc = .gone how) :
    (p.children = [] ∧ p.hist.registered = []) ↔
      Machine.StepsMeet (Proc.step E) Orderly (Proc.start fd) evs := by
  rcases Machine.meet_or_damaged (fun _ _ _ hg hC hs => Tidy.step hg hC (step_cases hs))
      (fun _ _ _ hg hC hs => Tidy.leftover hg hC (step_cases hs))
      (fun _ _ _ hb hs => Leftover.step hb (step_cases hs)) (Tidy.start fd) hrun with
    ⟨hmeet, htidy⟩ | ⟨hmeet, hdam⟩
  · have hr := htidy.closing (by rw [hpc]; rfl)
    exact ⟨fun _ => hmeet, fun _ => ⟨htidy.core.idle hr, htidy.idle hr (by rw [hpc]; rfl)⟩⟩
  · rcases hdam.left with hne | hne
    · exact ⟨fun h => absurd h.1 hne, fun h => absurd h hmeet⟩
    · exact ⟨fun h => absurd h.2 hne, fun h => absurd h hmeet⟩

/-- From `epoll_wait`, where the client's connection is found closed, to the kill in
`stop_child` and back to the head of the loop. -/
def hangupLabels (pid : Int) : List Label :=
  [.epollWait (.ready [5]), .tau, .read none, .epollDel 5, .kill pid, .tau]

/-- The client of `/bin/ls` goes away; the command dies of SIGTERM and is reaped. -/
theorem no_leftovers_iff_hangup :
    Machine.StepsMeet (Proc.step Proto3.env) Orderly (Proc.start 5)
      ((lsLabels ++ hangupLabels 100).map .mgr ++ .exit 100 (.signaled 15) ::
        ([.waitpid (some (100, .signaled 15)), .flock .ex, .unlink 100, .flock .un, .rmdir 100,
          .waitpid none, .tau, .tau, .tau] : List Label).map .mgr) := by
  obtain ⟨p, hrun, hp⟩ := Machine.exec_of_any
    (show (Machine.exec (Proc.step Proto3.env) (Proc.start 5)
      ((lsLabels ++ hangupLabels 100).map .mgr ++ .exit 100 (.signaled 15) ::
        ([.waitpid (some (100, .signaled 15)), .flock .ex, .unlink 100, .flock .un, .rmdir 100,
          .waitpid none, .tau, .tau, .tau] : List Label).map .mgr)).any
      (fun p => p.mgr.pc == .gone .exit0 && p.children == [] && p.hist.registered == []) = true
      by decide +kernel)
  simp only [Bool.and_eq_true, beq_iff_eq] at hp
  exact (no_leftovers_iff hrun hp.1.1).mp ⟨hp.1.2, hp.2⟩

/-- The client goes away just before a heartbeat: SIGPIPE kills the manager, and
`/bin/ls` and its registry file stay. -/
theorem leftovers_of_sigpipe :
    ¬ ∀ evs p how, Machine.exec (Proc.step Proto3.env) (Proc.start 5) evs = some p →
      p.mgr.pc = .gone how → p.hist.clones ≠ 0 → p.children = [] ∧ p.hist.registered = [] := by
  intro hcleared
  obtain ⟨p, hrun, hp⟩ := Machine.exec_of_any
    (show (Machine.exec (Proc.step Proto3.env) (Proc.start 5)
      ((lsLabels ++ [Label.epollWait .timeout, .write [8, 1] .sigpipe]).map .mgr)).any
      (fun p => p.mgr.pc == .gone .sigpipe && p.hist.clones == 1 && p.hist.registered == [100])
      = true by decide +kernel)
  simp only [Bool.and_eq_true, beq_iff_eq] at hp
  obtain ⟨⟨hpc, hcl⟩, hreg⟩ := hp
  have := (hcleared _ p _ hrun hpc (by simp [hcl])).2
  simp [hreg] at this

end Proc
end Srun
