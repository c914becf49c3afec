import Srun.Config
import Srun.Disconnect
import Srun.Ending
import Srun.Framework.Observer

/-!
# The answer to LIST

LIST reads the registry files, and what a registry file holds is the message of the client,
as it has come. The request that is executed has gone through `loadRequest` and
`find_command` since.

The observer keeps for each manager the request that its command was started with, the
registry files that its scan has met, and whether the registry has been written since the
scan began. `Scanned` is a scan that no write overlaps. Its answer has one entry for each
file (`Reports.once`, `Reports.all`); `reports_iff` says when the entries tell how the
commands run: the configuration must not change what they tell, and the command must have
been given by an absolute path.
-/

namespace Srun

/-- The request of an entry tells what the request `r'` does, as far as `srunctl list`
prints it. -/
structure Request.Agrees (r r' : Request) : Prop where
  network : r.network = r'.network
  backend : r.backend = r'.backend
  timeout : r.timeout = r'.timeout
  user : r.user = r'.user
  args : r.args = r'.args

/-- The configuration changes nothing of what `srunctl list` prints, and the lookup neither:
the command is an absolute path, and a key of the group, if it is there, has the value that
the client asks for. -/
structure Config.Leaves (c : Config) (r : Request) : Prop where
  absolute : ∃ cmd rest, r.args = cmd :: rest ∧ cmd.toList.head? = some '/'
  timeout : ∀ kf ∈ c.keyfileOf r, ∀ v ∈ kf.getInteger r.model "timeout", v = r.timeout
  user : ∀ kf ∈ c.keyfileOf r, ∀ v ∈ kf.getString r.model "user", v = r.user
  network : ∀ kf ∈ c.keyfileOf r, ∀ v ∈ kf.getBoolean r.model "network", v = r.network
  backend : ∀ kf ∈ c.keyfileOf r, ∀ v ∈ kf.getBoolean r.model "backend", v = r.backend

/-- An optional value replaces `a` by itself. -/
theorem getD_bind_eq_iff {α β : Type} {o : Option β} {f : β → Option α} {a : α} :
    a = (o.bind f).getD a ↔ ∀ b ∈ o, ∀ v ∈ f b, v = a := by
  cases o with
  | none => simp
  | some b =>
    cases hf : f b with
    | none => simp [hf]
    | some v => simp [hf, eq_comm]

/-- **What is executed, and what has been asked for.** -/
theorem agrees_iff {c : Config} {b : Bool} {fs : FileSystem} {r r' r'' : Request}
    (hload : c.loadRequest r = some (b, r')) (hfind : findCommand fs r' = (true, r'')) :
    r.Agrees r'' ↔ c.Leaves r := by
  have hover := Config.overlaid hload
  obtain ⟨cmd, rest, hargs, hcases⟩ := findCommand_cases hfind
  rw [hover.args] at hargs
  -- the lookup leaves the other fields alone
  have hsame : r''.network = r'.network ∧ r''.backend = r'.backend ∧ r''.timeout = r'.timeout ∧
      r''.user = r'.user := by
    rcases hcases with ⟨-, rfl⟩ | ⟨-, path, -, rfl⟩ <;> exact ⟨rfl, rfl, rfl, rfl⟩
  obtain ⟨hnetwork, hbackend, htimeout, huser⟩ := hsame
  have hargs_iff : r.args = r''.args ↔
      ∃ cmd rest, r.args = cmd :: rest ∧ cmd.toList.head? = some '/' := by
    rcases hcases with ⟨habs, rfl⟩ | ⟨hrel, path, hpath, rfl⟩
    · exact iff_of_true hover.args.symm ⟨cmd, rest, hargs, habs⟩
    · refine iff_of_false (fun heq => ?_) ?_
      · rw [hargs] at heq
        obtain ⟨rfl, -⟩ := List.cons.inj heq
        exact hrel hpath
      · rintro ⟨cmd', rest', hargs', habs⟩
        obtain ⟨rfl, -⟩ := List.cons.inj (hargs.symm.trans hargs')
        exact hrel habs
  constructor
  · intro h
    refine ⟨hargs_iff.mp h.args, ?_, ?_, ?_, ?_⟩ <;> apply getD_bind_eq_iff.mp
    · rw [← hover.timeout, ← htimeout]
      exact h.timeout
    · rw [← hover.user, ← huser]
      exact h.user
    · rw [← hover.network, ← hnetwork]
      exact h.network
    · rw [← hover.backend, ← hbackend]
      exact h.backend
  · intro h
    refine ⟨?_, ?_, ?_, ?_, hargs_iff.mpr h.absolute⟩
    · rw [hnetwork, hover.network]
      exact getD_bind_eq_iff.mpr h.network
    · rw [hbackend, hover.backend]
      exact getD_bind_eq_iff.mpr h.backend
    · rw [htimeout, hover.timeout]
      exact getD_bind_eq_iff.mpr h.timeout
    · rw [huser, hover.user]
      exact getD_bind_eq_iff.mpr h.user

/-- The scan of the registry, up to the answer. -/
def Pc.scanning : Pc → Bool
  | .list .next _ _ | .list .unlock _ _ | .list (.read _) _ _ => true
  | .send m (.reply _) => m.method = .list
  | _ => false

/-- `handle_request` before its clone, and the scan before its lock. -/
def Pc.handling : Pc → Bool
  | .list .lock _ _ | .handle .entry _ _ | .handle .find _ _ => true
  | pc => pc.found

/-- The labels that the observer looks at. -/
def Label.logged : Label → Bool
  | .clone _ | .flock .sh | .readdir (.entry _) => true
  | _ => false

/-! ### The observer -/

/-- What is kept of a manager. -/
structure ListLog where
  /-- The request that its command was started with. -/
  started : Request := {}
  /-- The registry files that its scan has met. -/
  seen : List Int := []
  /-- The registry has not been written since the scan began. -/
  quiet : Bool := false

namespace Proc

/-- What is kept of a manager after its own step. -/
def logAfter (p : Proc) (ev : Event) (g : ListLog) : ListLog :=
  match p.mgr.pc, ev with
  | .handle .clone _ _, .mgr (.clone pid) =>
    if pid = -1 then g else { g with started := p.mgr.request }
  | .list .lock _ _, .mgr (.flock .sh) => { g with seen := [], quiet := true }
  | .list .next _ _, .mgr (.readdir (.entry pid)) => { g with seen := g.seen ++ [pid] }
  | _, _ => g

variable {E : Env} {p p' : Proc} {ev : Event} {g : ListLog} {reg : Int → Option Bytes}

/-- The entry of a registry file. -/
def Entry (E : Env) (reg : Int → Option Bytes) (pid : Int) (e : Runproc) : Prop :=
  ∃ data since m, reg pid = some data ∧ E.parse data = some m ∧ e = Manager.runprocOf pid since m

/-- What LIST has gathered is what the registry has, file by file. -/
structure Scanning (E : Env) (reg : Int → Option Bytes) (p : Proc) (seen : List Int) : Prop where
  gathered : ∀ acc rest, p.mgr.pc = .list .next acc rest ∨ p.mgr.pc = .list .unlock acc rest ∨
    p.mgr.pc = .send (Manager.listMessage acc) (.reply rest) → List.Forall₂ (Entry E reg) seen acc
  reading : ∀ pid acc rest, p.mgr.pc = .list (.read pid) acc rest →
    ∃ before, seen = before ++ [pid] ∧ List.Forall₂ (Entry E reg) before acc

/-- The request that the command of the message `data` is executed with. -/
def Executes (E : Env) (data : Bytes) (r : Request) : Prop :=
  ∃ r' fs, accepted E data = some r' ∧ findCommand fs r' = (true, r)

/-- Where the request comes from that is about to be executed, and how a scan begins. -/
structure Handling (E : Env) (p : Proc) : Prop where
  lock : ∀ acc rest, p.mgr.pc = .list .lock acc rest → acc = []
  entry : ∀ data rest, p.mgr.pc = .handle .entry data rest ∨ p.mgr.pc = .handle .find data rest →
    accepted E data = some p.mgr.request
  found : ∀ pt data rest, p.mgr.pc = .handle pt data rest → p.mgr.pc.found = true →
    Executes E data p.mgr.request

/-- Where the request of the command comes from. -/
structure Traced (E : Env) (p : Proc) (started : Request) : Prop where
  handling : Handling E p
  started : ∀ pid ∈ p.pids, ∀ c, p.hist.command = some c → Executes E c.data started

theorem Scanning.start (fd : ℕ) (seen : List Int) : Scanning E reg (start fd) seen := by
  constructor <;> simp [Proc.start]

theorem Handling.start (fd : ℕ) : Handling E (start fd) := by
  constructor <;> simp [Proc.start]

theorem Traced.start (fd : ℕ) (started : Request) : Traced E (start fd) started :=
  ⟨.start fd, by simp [Proc.start, Proc.pids]⟩

theorem logAfter_of_silent (h : ∀ l, ev = .mgr l → l.logged = false) : logAfter p ev g = g := by
  unfold logAfter
  split
  · cases h _ rfl
  · cases h _ rfl
  · cases h _ rfl
  · rfl

theorem Scanning.of_ne {seen : List Int} (h : p.mgr.pc.scanning = false) :
    Scanning E reg p seen := by
  have no : ∀ {pc : Pc} {b : Prop}, p.mgr.pc = pc → pc.scanning = true → b := by
    intro pc b hpc hs
    rw [hpc, hs] at h
    cases h
  constructor
  · rintro acc rest (hpc | hpc | hpc)
    · exact no hpc rfl
    · exact no hpc rfl
    · exact no hpc rfl
  · intro pid acc rest hpc
    exact no hpc rfl

/-- A step that the registry does not see. -/
theorem Scanning.step (h : g.quiet = true → Scanning E reg p g.seen)
    (hlock : ∀ acc rest, p.mgr.pc = .list .lock acc rest → acc = [])
    (hread : ∀ pid data since, ev = .mgr (.readEntry pid (some (data, since))) →
      reg pid = some data)
    (hstep : Proc.Step E p ev p') (hquiet : (logAfter p ev g).quiet = true) :
    Scanning E reg p' (logAfter p ev g).seen := by
  have silent : (∀ l, ev = .mgr l → l.logged = false) →
      (logAfter p ev g).seen = g.seen ∧ Scanning E reg p g.seen := by
    intro hl
    rw [logAfter_of_silent hl] at hquiet ⊢
    exact ⟨rfl, h hquiet⟩
  cases hstep with
  | exit =>
    obtain ⟨hseen, hold⟩ := silent fun l hl => (by cases hl)
    rw [hseen]
    exact ⟨hold.gathered, hold.reading⟩
  | mgr hadm hm =>
    cases hm with
    | sigterm trusted =>
      obtain ⟨hseen, hold⟩ := silent fun l hl => (by cases hl; rfl)
      rw [hseen]
      exact ⟨hold.gathered, hold.reading⟩
    | @listLock acc rest hpc =>
      have hlog : logAfter p (.mgr (.flock .sh)) g = { g with seen := [], quiet := true } := by
        simp only [logAfter, hpc]
      rw [hlog, hlock acc rest hpc]
      refine ⟨fun acc' rest' hpc' => ?_, fun _ _ _ hpc' => (by cases hpc')⟩
      rcases hpc' with hpc' | hpc' | hpc' <;> cases hpc'
      exact .nil
    -- a file is met: it is going to be read, and what has been read stays
    | @listEntry acc rest pid hpc =>
      have hlog : logAfter p (.mgr (.readdir (.entry pid))) g =
          { g with seen := g.seen ++ [pid] } := by
        simp only [logAfter, hpc]
      rw [hlog] at hquiet ⊢
      refine ⟨fun acc' rest' hpc' => ?_, fun pid' acc' rest' hpc' => ?_⟩
      · rcases hpc' with hpc' | hpc' | hpc' <;> cases hpc'
      · cases hpc'
        exact ⟨g.seen, rfl, (h hquiet).gathered acc rest (Or.inl hpc)⟩
    | @listDone acc rest hpc =>
      obtain ⟨hseen, hold⟩ := silent fun l hl => (by cases hl; rfl)
      rw [hseen]
      refine ⟨fun acc' rest' hpc' => ?_, fun _ _ _ hpc' => (by cases hpc')⟩
      rcases hpc' with hpc' | hpc' | hpc' <;> cases hpc'
      exact hold.gathered acc rest (Or.inl hpc)
    | @listRead pid acc rest data since m hpc hm =>
      obtain ⟨hseen, hold⟩ := silent fun l hl => (by cases hl; rfl)
      rw [hseen]
      refine ⟨fun acc' rest' hpc' => ?_, fun _ _ _ hpc' => (by cases hpc')⟩
      rcases hpc' with hpc' | hpc' | hpc' <;> cases hpc'
      obtain ⟨before, hbefore, hall⟩ := hold.reading pid acc rest hpc
      rw [hbefore]
      -- the file that has been met is now an entry
      have hentry : Entry E reg pid (Manager.runprocOf pid since m) :=
        ⟨data, since, m, hread pid data since rfl, hm, rfl⟩
      exact List.rel_append hall (.cons hentry .nil)
    | @listUnlock acc rest hpc =>
      obtain ⟨hseen, hold⟩ := silent fun l hl => (by cases hl; rfl)
      rw [hseen]
      refine ⟨fun acc' rest' hpc' => ?_, fun _ _ _ hpc' => (by cases hpc')⟩
      rcases hpc' with hpc' | hpc' | hpc'
      · cases hpc'
      · cases hpc'
      · -- the answer is made of the entries
        have hacc : acc' = acc := by
          have hmsg := (Pc.send.inj hpc').1
          exact (congrArg Message.runlist hmsg).symm
        rw [hacc]
        exact hold.gathered acc rest (Or.inr (Or.inl hpc))
    | loopCheck => exact .of_ne (Manager.loopCheck_pc rfl (fun _ _ _ => rfl) fun _ => rfl)
    | dispatch =>
      exact .of_ne (Manager.dispatch_pc rfl (fun _ => rfl) (fun _ _ => rfl) (fun _ _ => rfl)
        fun _ => rfl)
    | waitOther hpc => exact .of_ne (by rw [hpc]; rfl)
    | reap => exact .of_ne (Manager.reaped_pc rfl rfl rfl)
    | argsSurvive => exact .of_ne (Manager.clearEntry_pc rfl rfl)
    | @received data rest m hpc hdata hm =>
      refine .of_ne ?_
      show (Manager.received E p.mgr data m rest).pc.scanning = false
      unfold Manager.received
      cases hmethod : m.method with
      | syn => simp [Pc.scanning, hmethod]
      | exe => cases E.loadRequest m.getRequest <;> rfl
      | _ => rfl
    | @waitNone k | @stopKill k | @stopIdle k | @sent _ k => exact .of_ne (by cases k <;> rfl)
    | _ => exact .of_ne rfl

theorem Handling.of_ne (h : p.mgr.pc.handling = false) : Handling E p := by
  have no : ∀ {pc : Pc} {b : Prop}, p.mgr.pc = pc → pc.handling = true → b := by
    intro pc b hpc hs
    rw [hpc, hs] at h
    cases h
  refine ⟨fun acc rest hpc => no hpc rfl, fun data rest hpc => ?_, fun pt data rest hpc hf => ?_⟩
  · rcases hpc with hpc | hpc
    · exact no hpc rfl
    · exact no hpc rfl
  · have hh : p.mgr.pc.handling = true := by
      rw [hpc] at hf ⊢
      cases pt <;> first | rfl | cases hf
    exact no rfl hh

theorem Handling.step (h : Handling E p) (hstep : Proc.Step E p ev p') : Handling E p' := by
  cases hstep with
  | exit => exact ⟨h.lock, h.entry, h.found⟩
  | mgr hadm hm =>
    cases hm with
    | sigterm => exact ⟨h.lock, h.entry, h.found⟩
    | @received data rest m hpc hdata hm =>
      -- an EXE is handled with the request that `loadRequest` has made of it
      unfold Manager.received
      cases hmethod : m.method with
      | exe =>
        cases hload : E.loadRequest m.getRequest with
        | none => exact .of_ne rfl
        | some r =>
          refine ⟨fun _ _ hpc' => (by cases hpc'), fun data' rest' hpc' => ?_,
            fun pt data' rest' hpc' hf => (by cases hf)⟩
          rcases hpc' with hpc' | hpc' <;> cases hpc'
          simp [accepted, hm, hload]
      | list =>
        refine ⟨fun acc rest' hpc' => ?_, fun data' rest' hpc' => ?_,
          fun pt data' rest' hpc' hf => (by cases hf)⟩
        · cases hpc'
          rfl
        · rcases hpc' with hpc' | hpc' <;> cases hpc'
      | syn | ack | stop | other => exact .of_ne rfl
    | @handleAccept data rest hpc hc =>
      refine ⟨fun _ _ hpc' => (by cases hpc'), fun data' rest' hpc' => ?_,
        fun pt data' rest' hpc' hf => (by cases hf)⟩
      -- the request is the one that has been accepted
      rcases hpc' with hpc' | hpc' <;> cases hpc'
      exact h.entry data rest (Or.inl hpc)
    | @findFound data rest fs r hpc hf =>
      refine ⟨fun _ _ hpc' => (by cases hpc'), fun data' rest' hpc' => ?_,
        fun pt data' rest' hpc' _ => ?_⟩
      · rcases hpc' with hpc' | hpc' <;> cases hpc'
      · cases hpc'
        -- from here on it is what the lookup has made of it
        exact ⟨p.mgr.request, fs, h.entry data rest (Or.inr hpc), hf⟩
    | @loadOut data rest _ _ _ hpc | @loadErr data rest _ _ _ hpc =>
      refine ⟨fun _ _ hpc' => (by cases hpc'), fun data' rest' hpc' => ?_,
        fun pt data' rest' hpc' _ => ?_⟩
      · rcases hpc' with hpc' | hpc' <;> cases hpc'
      · cases hpc'
        exact h.found _ data rest hpc (by rw [hpc]; rfl)
    | loopCheck => exact .of_ne (Manager.loopCheck_pc rfl (fun _ _ _ => rfl) fun _ => rfl)
    | dispatch =>
      exact .of_ne (Manager.dispatch_pc rfl (fun _ => rfl) (fun _ _ => rfl) (fun _ _ => rfl)
        fun _ => rfl)
    | waitOther hpc => exact .of_ne (by rw [hpc]; rfl)
    | reap => exact .of_ne (Manager.reaped_pc rfl rfl rfl)
    | argsSurvive => exact .of_ne (Manager.clearEntry_pc rfl rfl)
    | @waitNone k | @stopKill k | @stopIdle k | @sent _ k => exact .of_ne (by cases k <;> rfl)
    | _ => exact .of_ne rfl

/-- The step of a manager, for its own record. -/
theorem Traced.step (h : Traced E p g.started) (hstep : Proc.Step E p ev p') :
    Traced E p' (logAfter p ev g).started := by
  refine ⟨h.handling.step hstep, fun pid hpid c' hc' => ?_⟩
  by_cases hclone : ∃ pid, ev = .mgr (.clone pid) ∧ pid ≠ -1
  · -- a new command
    obtain ⟨pid, rfl, hne⟩ := hclone
    cases hstep with
    | mgr hadm hm =>
      cases hm with
      | @clone data rest _ hpc =>
        have hc : c' = ⟨pid, data, false⟩ := by
          simpa [histAfter, hpc, hne] using hc'.symm
        have hlog : logAfter p (.mgr (.clone pid)) g = { g with started := p.mgr.request } := by
          simp only [logAfter, hpc, if_neg hne]
        rw [hc, hlog]
        exact h.handling.found _ data rest hpc (by rw [hpc]; rfl)
      | cloneFail => exact absurd rfl hne
      | throws hl => cases (Pc.throwing_of_throws hl).2
  · have hkeep : ∀ pid, ev = .mgr (.clone pid) → pid = -1 := fun pid hev =>
      by_contra fun hne => hclone ⟨pid, hev, hne⟩
    have hlog : (logAfter p ev g).started = g.started := by
      unfold logAfter
      split
      · rw [if_pos (hkeep _ rfl)]
      · rfl
      · rfl
      · rfl
    rw [hlog]
    -- no other command is started, so what has been recorded stays
    obtain ⟨c, hc, hdata⟩ := hstep.command_data hkeep hc'
    rw [← hdata]
    exact h.started pid ((hstep.pids hpid).resolve_right fun hev => hev.2 (hkeep pid hev.1)) c hc

/-- A registry file stays on the record until its manager unlinks it. -/
theorem Step.registered_mem (hstep : Proc.Step E p ev p') {pid : Int}
    (h : pid ∈ p.hist.registered) (hu : ev ≠ .mgr (.unlink pid)) : pid ∈ p'.hist.registered := by
  cases hstep with
  | exit => exact h
  | mgr hadm hm =>
    show pid ∈ (p.histAfter E _).registered
    unfold histAfter
    split
    -- another file is added, or another one removed; the rest keeps the list
    case h_3 => exact List.mem_cons_of_mem _ h
    case h_5 pid' _ =>
      have hne : pid ≠ pid' := by
        rintro rfl
        exact hu rfl
      exact List.mem_filter.mpr ⟨h, decide_eq_true hne⟩
    case h_8 =>
      split
      · rwa [histSent_registered]
      · exact h
    all_goals first | exact h | (split <;> exact h)

/-- A manager that creates a registry file has it on its record. -/
theorem Step.registered_of_create {pid : Int}
    (hstep : Proc.Step E p (.mgr (.regCreate pid true)) p') : pid ∈ p'.hist.registered := by
  cases hstep with
  | mgr hadm hm =>
    cases hm with
    | throws hl => cases (Pc.throwing_of_throws hl).2
    | create hpc =>
      show _ ∈ (p.histAfter E _).registered
      simp only [histAfter, hpc]
      exact List.mem_cons_self

end Proc
namespace Sys

/-- A registry file is created, written or unlinked. -/
def writes : SysEvent → Bool
  | .proc _ e => (touched e).isSome
  | _ => false

/-- The records of the managers after a step. -/
def log (s : Sys) (ev : SysEvent) (_ : Sys) (g : ℕ → ListLog) (j : ℕ) : ListLog :=
  let own := match ev, s.procs[j]? with
    | .proc i e, some p => if i = j then p.logAfter e (g j) else g j
    | _, _ => g j
  if writes ev then { own with quiet := false } else own

variable {E : Env} {s s' : Sys} {ev : SysEvent} {g : ℕ → ListLog}

/-- The records are right. -/
def Logged (E : Env) (s : Sys) (g : ℕ → ListLog) : Prop :=
  ∀ (j : ℕ) (p : Proc), s.procs[j]? = some p →
    ((g j).quiet = true → p.Scanning E s.registry (g j).seen) ∧ p.Traced E (g j).started

theorem registryAfter_eq {e : Event} (h : touched e = none) : s.registryAfter e = s.registry :=
  funext fun pid => registryAfter_of_ne (by rw [h]; intro hn; cases hn)

theorem Logged.step (h : Logged E s g) (hstep : Step E s ev s') : Logged E s' (log s ev s' g) := by
  intro j q hj
  cases hstep with
  | fork fd =>
    rcases getElem?_concat_cases hj with rfl | hj
    · exact ⟨fun _ => .start fd _, .start fd _⟩
    · exact h j q hj
  | @proc i e p p' hi hadm hp =>
    -- a step that does not end the quiet leaves the registry
    have hreg : ∀ {g' : ListLog}, (if writes (.proc i e) then { g' with quiet := false }
        else g').quiet = true → g'.quiet = true ∧ s.registryAfter e = s.registry := by
      intro g' hq
      split at hq
      · cases hq
      · next hw => exact ⟨hq, registryAfter_eq (by simpa [writes] using hw)⟩
    have hseen : ∀ {g' : ListLog} {b : Bool}, (if b then { g' with quiet := false } else g').seen =
        g'.seen ∧ (if b then { g' with quiet := false } else g').started = g'.started := by
      intro g' b
      cases b <;> exact ⟨rfl, rfl⟩
    rcases getElem?_set_cases hj with ⟨rfl, rfl⟩ | ⟨hji, hj⟩
    · -- the manager's own step, and then that of another one
      have hlog : log s (.proc j e) (s.after j e q) g j =
          if writes (.proc j e) then { p.logAfter e (g j) with quiet := false }
          else p.logAfter e (g j) := by
        simp only [log, hi, if_pos]
      obtain ⟨hscan, htraced⟩ := h j p hi
      rw [hlog]
      refine ⟨fun hq => ?_, ?_⟩
      · obtain ⟨hq, hsame⟩ := hreg hq
        rw [hseen.1]
        show q.Scanning E (s.registryAfter e) _
        rw [hsame]
        refine Proc.Scanning.step hscan htraced.handling.lock (fun pid data since he => ?_) hp hq
        rw [he] at hadm
        exact of_decide_eq_true hadm
      · rw [hseen.2]
        exact htraced.step hp
    · have hlog : log s (.proc i e) (s.after i e p') g j =
          if writes (.proc i e) then { g j with quiet := false } else g j := by
        simp only [log, hj, if_neg (Ne.symm hji)]
      obtain ⟨hscan, htraced⟩ := h j q hj
      rw [hlog]
      refine ⟨fun hq => ?_, ?_⟩
      · obtain ⟨hq, hsame⟩ := hreg hq
        rw [hseen.1]
        show q.Scanning E (s.registryAfter e) _
        rw [hsame]
        exact hscan hq
      · rw [hseen.2]
        exact htraced
  | @orphan i c st p hi hgone =>
    rcases getElem?_set_cases hj with ⟨rfl, rfl⟩ | ⟨-, hj⟩
    · -- a child has been reaped by init; the record is not about it
      obtain ⟨hscan, htraced⟩ := h j p hi
      refine ⟨fun hq => ⟨(hscan hq).gathered, (hscan hq).reading⟩,
        ⟨⟨htraced.handling.lock, htraced.handling.entry, htraced.handling.found⟩, ?_⟩⟩
      intro pid hpid
      obtain ⟨x, hx, rfl⟩ := List.mem_map.mp hpid
      exact htraced.started x.1 (List.mem_map.mpr ⟨x, List.mem_of_mem_erase hx, rfl⟩)
    · exact h j q hj
  | spawn | vanish => exact h j q hj

/-! ### The answer -/

/-- The command `pid` runs under the manager `j`. -/
def Runs (s : Sys) (j : ℕ) (pid : Int) : Prop := ∃ p, s.procs[j]? = some p ∧ pid ∈ p.pids

/-- The manager `i` is about to send the answer `runlist`. Its scan of the registry has not
overlapped with a write, and the directory has shown each file once; no command is just
being started. -/
structure Scanned (s : Sys) (g : ℕ → ListLog) (i : ℕ) (runlist : List Runproc) : Prop where
  answer : ∃ p rest, s.procs[i]? = some p ∧
    p.mgr.pc = .send (Manager.listMessage runlist) (.reply rest)
  quiet : (g i).quiet = true
  once : (g i).seen.Nodup
  all : ∀ pid, (s.registry pid).isSome = true → pid ∈ (g i).seen
  /-- A registry file is named by a `pid_t`. -/
  fits : ∀ pid, (s.registry pid).isSome = true → -2 ^ 31 ≤ pid ∧ pid < 2 ^ 31
  settled : ∀ (j : ℕ) (p : Proc) (pid : Int), s.procs[j]? = some p → pid ∈ p.pids →
    ∃ data, p.hist.command = some ⟨pid, data, true⟩

/-- The answer tells the commands as they run: one entry for each, with its pid and with
what it was started with. -/
structure Reports (s : Sys) (g : ℕ → ListLog) (runlist : List Runproc) : Prop where
  once : (runlist.map (·.pid.toInt)).Nodup
  all : ∀ pid, pid ∈ runlist.map (·.pid.toInt) ↔ ∃ j, s.Runs j pid
  agrees : ∀ e ∈ runlist, ∀ j, s.Runs j e.pid.toInt →
    Request.Agrees (e.request.getD {}) (g j).started

/-- No registry file is left of a command that does not run any more. -/
def NoStale (s : Sys) : Prop := ∀ pid, (s.registry pid).isSome = true → ∃ j, s.Runs j pid

/-- The configuration leaves what the clients have asked for. -/
def AsAsked (c : Config) (E : Env) (s : Sys) : Prop :=
  ∀ (j : ℕ) (p : Proc) (pid : Int) (data : Bytes), s.procs[j]? = some p → pid ∈ p.pids →
    p.hist.command = some ⟨pid, data, true⟩ → ∀ m ∈ E.parse data, c.Leaves m.getRequest

/-- The pids of the entries are the names of the files. -/
theorem map_pid_eq {reg : Int → Option Bytes} {seen : List Int} {runlist : List Runproc}
    (hfits : ∀ pid, (reg pid).isSome = true → -2 ^ 31 ≤ pid ∧ pid < 2 ^ 31)
    (h : List.Forall₂ (Proc.Entry E reg) seen runlist) : runlist.map (·.pid.toInt) = seen := by
  induction h with
  | nil => rfl
  | @cons pid e seen runlist hentry _ ih =>
    obtain ⟨data, since, m, hreg, -, rfl⟩ := hentry
    obtain ⟨hlow, hhigh⟩ := hfits pid (by rw [hreg]; rfl)
    rw [List.map_cons, ih]
    congr 1
    exact Int32.toInt_ofInt_of_le hlow hhigh

theorem entry_of_mem {reg : Int → Option Bytes} {seen : List Int} {runlist : List Runproc}
    (h : List.Forall₂ (Proc.Entry E reg) seen runlist) {e : Runproc} (he : e ∈ runlist) :
    ∃ pid ∈ seen, Proc.Entry E reg pid e := by
  induction h with
  | nil => cases he
  | @cons pid e' seen runlist hentry _ ih =>
    rcases List.mem_cons.mp he with rfl | he
    · exact ⟨pid, List.mem_cons_self, hentry⟩
    · obtain ⟨pid', hpid', hentry'⟩ := ih he
      exact ⟨pid', List.mem_cons_of_mem _ hpid', hentry'⟩

/-- What is known of the answer, from the registry and from the records. -/
theorem Scanned.reports_eq {c : Config} {i : ℕ} {runlist : List Runproc}
    (h : Scanned s g i runlist) (hfiled : Filed s) (hlogged : Logged (c.env E) s g) :
    Reports s g runlist ↔ NoStale s ∧ AsAsked c (c.env E) s := by
  obtain ⟨p, rest, hi, hpc⟩ := h.answer
  have hforall : List.Forall₂ (Proc.Entry (c.env E) s.registry) (g i).seen runlist :=
    ((hlogged i p hi).1 h.quiet).gathered runlist rest (Or.inr (Or.inr hpc))
  have hmap := map_pid_eq h.fits hforall
  -- each file has been met, and only files have been met
  have hseen : ∀ pid, pid ∈ (g i).seen ↔ (s.registry pid).isSome = true := by
    intro pid
    refine ⟨fun hpid => ?_, h.all pid⟩
    rw [← hmap] at hpid
    obtain ⟨e, he, rfl⟩ := List.mem_map.mp hpid
    obtain ⟨pid', -, data, since, m, hreg, -, rfl⟩ := entry_of_mem hforall he
    obtain ⟨hlow, hhigh⟩ := h.fits pid' (by rw [hreg]; rfl)
    have hsame : (Manager.runprocOf pid' since m).pid.toInt = pid' :=
      Int32.toInt_ofInt_of_le hlow hhigh
    rw [hsame, hreg]
    rfl
  -- the file of a command that runs is its message, and it is executed with what becomes of it
  have hruns : ∀ {j pid}, s.Runs j pid → ∃ q data m r b fs, s.procs[j]? = some q ∧ pid ∈ q.pids ∧
      q.hist.command = some ⟨pid, data, true⟩ ∧ s.registry pid = some data ∧
      E.parse data = some m ∧ c.loadRequest m.getRequest = some (b, r) ∧
      findCommand fs r = (true, (g j).started) := by
    rintro j pid ⟨q, hj, hpid⟩
    obtain ⟨data, hcmd⟩ := h.settled j q pid hj hpid
    obtain ⟨r, fs, hacc, hfind⟩ := (hlogged j q hj).2.started pid hpid _ hcmd
    obtain ⟨m, hm, hres⟩ := Option.bind_eq_some_iff.mp hacc
    obtain ⟨⟨b, r'⟩, hload, rfl⟩ := Option.map_eq_some_iff.mp hres
    exact ⟨q, data, m, r', b, fs, hj, hpid, hcmd, hfiled.registered j q pid data hj hpid hcmd, hm,
      hload, hfind⟩
  have hall : (∀ pid, pid ∈ runlist.map (·.pid.toInt) ↔ ∃ j, s.Runs j pid) ↔ NoStale s := by
    rw [hmap]
    constructor
    · -- an answer of just the running commands shows that no file is stale
      intro hall pid hpid
      exact (hall pid).mp ((hseen pid).mpr hpid)
    · intro hstale pid
      rw [hseen]
      refine ⟨hstale pid, ?_⟩
      rintro ⟨j, hrun⟩
      obtain ⟨_, data, _, _, _, _, -, -, -, hreg, -⟩ := hruns hrun
      rw [hreg]
      rfl
  constructor
  · intro hrep
    refine ⟨hall.mp hrep.all, fun j q pid data hj hpid hcmd m hm => ?_⟩
    have hrun : s.Runs j pid := ⟨q, hj, hpid⟩
    obtain ⟨e, he, heq⟩ := List.mem_map.mp ((hrep.all pid).mpr ⟨j, hrun⟩)
    obtain ⟨q', data', m', r, b, fs, hj', -, hcmd', hreg, hm', hload, hfind⟩ := hruns hrun
    -- the entry has been made from the file of this command
    obtain ⟨pid', -, data'', since, m'', hreg'', hm'', rfl⟩ := entry_of_mem hforall he
    obtain ⟨hlow, hhigh⟩ := h.fits pid' (by rw [hreg'']; rfl)
    obtain rfl : pid' = pid := (Int32.toInt_ofInt_of_le hlow hhigh).symm.trans heq
    obtain rfl : data'' = data' := Option.some.inj (hreg''.symm.trans hreg)
    obtain rfl : m'' = m' := Option.some.inj (hm''.symm.trans hm')
    obtain rfl : q = q' := Option.some.inj (hj.symm.trans hj')
    have hdata : data = data'' := by
      have := hcmd.symm.trans hcmd'
      cases this
      rfl
    obtain rfl : m = m'' := by
      rw [hdata] at hm
      exact Option.some.inj (hm.symm.trans hm'')
    refine (agrees_iff hload hfind).mp (hrep.agrees _ he j ?_)
    rw [heq]
    exact hrun
  · rintro ⟨hstale, hasked⟩
    -- the entry has been made from the file of the command, whose message it was asked with
    refine ⟨by rw [hmap]; exact h.once, hall.mpr hstale, fun e he j hrun => ?_⟩
    obtain ⟨q, data, m, r, b, fs, hj, hpid, hcmd, hreg, hm, hload, hfind⟩ := hruns hrun
    obtain ⟨pid', -, data', since, m', hreg', hm', rfl⟩ := entry_of_mem hforall he
    obtain ⟨hlow, hhigh⟩ := h.fits pid' (by rw [hreg']; rfl)
    have hsame : (Manager.runprocOf pid' since m').pid.toInt = pid' :=
      Int32.toInt_ofInt_of_le hlow hhigh
    rw [hsame] at hreg hpid hcmd
    obtain rfl : data' = data := Option.some.inj (hreg'.symm.trans hreg)
    obtain rfl : m' = m := Option.some.inj (hm'.symm.trans hm)
    exact (agrees_iff hload hfind).mpr (hasked j q pid' data' hj hpid hcmd m' hm)

/-- Every registry file is on the record of a manager that has created it. -/
def Owned (s : Sys) : Prop :=
  ∀ pid, (s.registry pid).isSome = true → ∃ p ∈ s.procs, pid ∈ p.hist.registered

theorem Owned.step (h : Owned s) (hstep : Step E s ev s') : Owned s' := by
  intro pid hpid
  cases hstep with
  | fork fd =>
    obtain ⟨p, hp, hmem⟩ := h pid hpid
    exact ⟨p, List.mem_append_left _ hp, hmem⟩
  | @proc i e p p' hi hadm hp =>
    have hat : (s.procs.set i p')[i]? = some p' := by
      have hlt : i < s.procs.length := (List.getElem?_eq_some_iff.mp hi).1
      simp [hlt]
    -- the file was there before, or has just been created
    rcases registryAfter_ne_none (Option.isSome_iff_ne_none.mp hpid) with hold | rfl
    · obtain ⟨q, hq, hmem⟩ := h pid (Option.isSome_iff_ne_none.mpr hold)
      obtain ⟨j, hj⟩ := List.getElem?_of_mem hq
      by_cases hji : j = i
      · obtain rfl : q = p := by
          rw [hji] at hj
          exact Option.some.inj (hj.symm.trans hi)
        refine ⟨p', List.mem_of_getElem? hat, hp.registered_mem hmem fun hunlink => ?_⟩
        -- the file would be gone
        rw [hunlink] at hpid
        have hgone : s.registryAfter (.mgr (.unlink pid)) pid = none := Function.update_self ..
        have hpid : (s.registryAfter (.mgr (.unlink pid)) pid).isSome = true := hpid
        rw [hgone] at hpid
        cases hpid
      · have hkeep : (s.procs.set i p')[j]? = some q := by
          rw [List.getElem?_set_ne (Ne.symm hji)]
          exact hj
        exact ⟨q, List.mem_of_getElem? hkeep, hmem⟩
    · exact ⟨p', List.mem_of_getElem? hat, hp.registered_of_create⟩
  | @orphan i c st p hi hgone =>
    obtain ⟨q, hq, hmem⟩ := h pid hpid
    obtain ⟨j, hj⟩ := List.getElem?_of_mem hq
    by_cases hji : j = i
    · have hlt : i < s.procs.length := (List.getElem?_eq_some_iff.mp hi).1
      refine ⟨_, List.mem_set hlt _, ?_⟩
      rw [hji, hi] at hj
      rwa [Option.some.inj hj]
    · have hkeep : (s.procs.set i { p with children := p.children.erase (c, .zombie st) })[j]? =
          some q := by
        rw [List.getElem?_set_ne (Ne.symm hji)]
        exact hj
      exact ⟨q, List.mem_of_getElem? hkeep, hmem⟩
  | spawn | vanish => exact h pid hpid

/-- What can be evaluated of `Scanned`. -/
def checks (s : Sys) (g : ℕ → ListLog) (i : ℕ) (runlist : List Runproc) : Bool :=
  (s.procs[i]?.any fun p => match p.mgr.pc with
    | .send m (.reply _) => m = Manager.listMessage runlist
    | _ => false) &&
  (g i).quiet && (g i).seen.Nodup &&
  s.procs.all fun p =>
    (p.hist.registered.all fun pid => pid ∈ (g i).seen && -2 ^ 31 ≤ pid && pid < 2 ^ 31) &&
    p.pids.all fun pid => p.hist.command.any fun c => c.pid = pid && c.completed

theorem Scanned.of_checks {i : ℕ} {runlist : List Runproc} (howned : Owned s)
    (h : checks s g i runlist = true) : Scanned s g i runlist := by
  simp only [checks, Bool.and_eq_true, decide_eq_true_eq, List.all_eq_true] at h
  obtain ⟨⟨⟨hanswer, hquiet⟩, honce⟩, hall⟩ := h
  have hfile : ∀ pid, (s.registry pid).isSome = true →
      (pid ∈ (g i).seen ∧ -2 ^ 31 ≤ pid) ∧ pid < 2 ^ 31 := by
    intro pid hpid
    obtain ⟨p, hp, hmem⟩ := howned pid hpid
    exact (hall p hp).1 pid hmem
  refine ⟨?_, hquiet, honce, fun pid hpid => (hfile pid hpid).1.1,
    fun pid hpid => ⟨(hfile pid hpid).1.2, (hfile pid hpid).2⟩, fun j p pid hj hpid => ?_⟩
  · obtain ⟨p, hi, hpc⟩ := (Option.any_eq_true _ _).mp hanswer
    split at hpc
    · next m rest hsend =>
      refine ⟨p, rest, hi, ?_⟩
      rw [hsend, of_decide_eq_true hpc]
    · cases hpc
  · obtain ⟨c, hc, hcond⟩ :=
      (Option.any_eq_true _ _).mp ((hall p (List.mem_of_getElem? hj)).2 pid hpid)
    simp only [Bool.and_eq_true, decide_eq_true_eq] at hcond
    obtain ⟨rfl, hdone⟩ := hcond
    refine ⟨c.data, ?_⟩
    rw [hc, ← hdone]

/-- The state that the observer has reached, with what can be evaluated of `Scanned`. -/
theorem scanned_of_any {c : Config} {evs : List SysEvent} {i : ℕ} {runlist : List Runproc}
    (h : (Machine.exec (Machine.observe (step (c.env E)) log) ⟨start, fun _ => {}⟩ evs).any
      (fun o => checks o.state o.seen i runlist) = true) :
    ∃ o, Machine.exec (Machine.observe (step (c.env E)) log) ⟨start, fun _ => {}⟩ evs = some o ∧
      Scanned o.state o.seen i runlist := by
  obtain ⟨o, hrun, hchecks⟩ := Machine.exec_of_any h
  have howned : Owned o.state := by
    refine Machine.exec_invariant (I := fun o => Owned o.state) (fun o ev o' hI hstep => ?_)
      (fun pid hpid => by simp [start] at hpid) hrun
    exact hI.step (step_cases (Machine.observe_eq_some.mp hstep).1)
  exact ⟨o, hrun, .of_checks howned hchecks⟩

/-- The second manager asks for the registry, which has the file of process 100 only. -/
def listEvents (data : Bytes) : List SysEvent :=
  .fork 5 51 :: steps 1 (Proc.bootLabels ++ Proc.receiveLabels Proc.listData ++
    [.flock .sh, .readdir (.entry 100), .readEntry 100 (some (data, 0)), .readdir .done,
      .flock .un])

/-- A group that makes a backend command of its requests. -/
def backendConfig : Config :=
  ⟨[("/etc/srund/srund.conf",
    ⟨[("backend", [("backend", { string := some "true", boolean := some true })])]⟩)],
    List.pairwise_singleton ..⟩

/-- An EXE message for `/bin/ls` with this group as its model. -/
def modelData : Chunk :=
  ⟨[0x1a, 18, 0x0a, 7, 0x2f, 0x62, 0x69, 0x6e, 0x2f, 0x6c, 0x73,
    0x12, 7, 0x62, 0x61, 0x63, 0x6b, 0x65, 0x6e, 0x64], by decide, by decide⟩

def modelMessage : Message :=
  { request := some { args := ["/bin/ls"], model := "backend" } }

end Sys
end Srun
