import Srun.Credentials
import Srun.Ending
import Srun.ExitStatus
import Srun.Framework.Environ

/-!
# What a command is executed as

A request from the client's `Srunc::run` to the call of `execv`. On its way it is serialized and
parsed, `loadRequest` lays a group over it, `find_command` completes the name of the program, the
clone gets a copy of it, and `execute` takes from it user, directory, niceness and environment.

`Image` is what a process keeps over `execv`, apart from its descriptors. `Task` adds it to a job,
for the child that the manager has cloned. `executed_as_asked` says that in every run, however the
three processes interleave, these fields of the request have become what they stand for by the
time `execv` is called.
-/

namespace Srun

/-! ### The image of a process -/

/-- `setenv(name, value, 1)`. An empty name is refused, and one with `=`. -/
def setenv (environ : List (String × String)) (name value : String) : List (String × String) :=
  if name = "" ∨ '=' ∈ name.toList then environ else Environ.put environ name value

/-- The working directory after `chdir`, as a path. -/
def chdirTo (cwd path : String) : String :=
  if path.toList.head? = some '/' then path else cwd ++ "/" ++ path

/-- The niceness after `nice(inc)`: without root's rights it cannot be lowered. -/
def niceBy (current inc : Int32) (privileged : Bool) : Int32 :=
  let value := max (-20) (min 19 (current + inc))
  if value < current ∧ privileged = false then current else value

/-- What a process keeps over `execv`, its descriptors and its signal mask apart. -/
structure Image where
  cred : Credentials
  cwd : String
  niceness : Int32
  /-- The signal that the process gets when its parent dies. -/
  deathSignal : Option ℕ
  environ : List (String × String)
  /-- The process is in the network of its parent. -/
  network : Bool

namespace Image

/-- The image of a clone, with or without `CLONE_NEWNET`. -/
def cloned (i : Image) (network : Bool) : Image :=
  { i with deathSignal := none, network := network }

/-- `setgid` or `setuid`: a change of the effective ids clears the death signal. -/
def setCred (i : Image) (cred : Credentials) : Image :=
  { i with
    cred := cred
    deathSignal :=
      if cred.uid.effective = i.cred.uid.effective ∧ cred.gid.effective = i.cred.gid.effective then
        i.deathSignal
      else none }

/-- The image after a call of `execute`. -/
def after (i : Image) : ChildLabel → Image
  | .setgid gid ok => i.setCred (i.cred.after (.setgid gid ok))
  | .setuid uid ok => i.setCred (i.cred.after (.setuid uid ok))
  -- a directory that cannot be entered leaves the process where it is
  | .chdir path true => { i with cwd := chdirTo i.cwd path }
  | .prctl => { i with deathSignal := some 15 }
  | .nice inc => { i with niceness := niceBy i.niceness inc i.cred.privileged }
  | .setenv name value => { i with environ := setenv i.environ name value }
  | _ => i

theorem after_cred (i : Image) (l : ChildLabel) : (i.after l).cred = i.cred.after l := by
  cases l with
  | chdir path ok => cases ok <;> rfl
  | _ => rfl

theorem after_network (i : Image) (l : ChildLabel) : (i.after l).network = i.network := by
  cases l with
  | chdir path ok => cases ok <;> rfl
  | _ => rfl

end Image

/-! ### The request -/

/-- What an entry of `request.envs` sets, if it does: an entry without `=`, or with nothing before
it, is passed over. -/
def assignment (env : String) : Option (String × String) :=
  (splitEnv env).filter (·.1 ≠ "")

/-- The assignments of a request, in order. -/
def Request.assignments (r : Request) : List (String × String) := r.envs.filterMap assignment

/-- The directory of a request. -/
def Request.cwd (r : Request) (cwd : String) : String :=
  if r.chroot = "" then cwd else chdirTo cwd (cstr r.chroot)

/-- What the image `i` of a process that calls `execv` with `argv` is to be, when the manager
has the image `m` and the request is `r`. -/
structure AsAsked (A : Accounts) (m : Image) (fs : FileSystem) (r : Request) (argv : List String)
    (i : Image) : Prop where
  /-- The arguments are the request's, as far as a C string shows them, with the path of the
  program as the lookup has found it. -/
  argv : (findCommand fs r).1 = true ∧ argv = (findCommand fs r).2.args.map cstr
  /-- The ids are the user's, and the niceness has been changed with the user's rights. -/
  ids : ∃ gid uid, A.passwd (Cloned.requested r) = some (gid, uid) ∧
    i.cred = ⟨.all uid, .all gid, m.cred.groups⟩ ∧
    i.niceness = niceBy m.niceness r.nice (uid = 0)
  cwd : i.cwd = r.cwd m.cwd
  /-- The command does not outlive the manager. -/
  deathSignal : i.deathSignal = some 15
  /-- Without `network` the command has a network of its own. -/
  network : i.network = r.network
  /-- The last entry for a name counts, and other names are the manager's. -/
  environ : ∀ name, i.environ.lookup name =
    (r.assignments.reverse.lookup name).or (m.environ.lookup name)

/-- The lookup completes the first argument and leaves the other fields alone. -/
theorem findCommand_request {fs : FileSystem} {r : Request} :
    ∃ args, (findCommand fs r).2 = { r with args := args } := by
  -- an absolute program keeps its path; otherwise the directories are tried one after the other
  unfold findCommand
  split
  · exact ⟨_, rfl⟩
  · split
    · exact ⟨_, rfl⟩
    · exact ⟨_, rfl⟩
    · split
      · exact ⟨_, rfl⟩
      · exact ⟨_, rfl⟩

/-! ### The environment loop -/

/-- The name of an entry ends before the first `=`. -/
theorem splitEnv_name {env name value : String} (h : splitEnv env = some (name, value)) :
    '=' ∉ name.toList := by
  unfold splitEnv at h
  split at h
  · cases h
  · obtain ⟨rfl, -⟩ := Prod.mk.inj (Option.some.inj h)
    -- what comes before the first `=` has none
    intro hmem
    rw [cstr_toList, String.toList_ofList] at hmem
    have heq := List.mem_takeWhile_imp ((List.takeWhile_prefix _).mem hmem)
    simp at heq

theorem assignment_eq_none {env : String} (h : splitEnv env = none) : assignment env = none := by
  rw [assignment, h]
  rfl

/-- One round of the loop is one assignment, or none. -/
theorem setenv_eq {env name value : String} (h : splitEnv env = some (name, value))
    (environ : List (String × String)) :
    setenv environ name value = Environ.putAll environ (assignment env).toList := by
  rw [setenv, assignment, h]
  -- a name is empty when the entry begins with `=`
  by_cases hname : name = ""
  · rw [if_pos (Or.inl hname), Option.filter_some_neg (by simpa using hname)]
    rfl
  · have hgood : ¬ (name = "" ∨ '=' ∈ name.toList) := not_or.mpr ⟨hname, splitEnv_name h⟩
    rw [if_neg hgood, Option.filter_some_pos (by simpa using hname)]
    rfl

/-! ### The child -/

/-- How far `execute` has come with the image `i`, for the request `r`, after a clone from the
image `m`: what it has changed is as the request asks, and the rest is the manager's. In the
loop over the environment the entries that are `done` have been assigned in their order. -/
def Image.Stage (m : Image) (r : Request) (i : Image) : ChildPc → Prop
  | .dupOut | .dupErr | .getpwnam | .setgid _ _ | .setuid _ | .chdir =>
    i.cwd = m.cwd ∧ i.niceness = m.niceness ∧ i.environ = m.environ
  | .prctl => i.cwd = r.cwd m.cwd ∧ i.niceness = m.niceness ∧ i.environ = m.environ
  | .nice =>
    i.cwd = r.cwd m.cwd ∧ i.niceness = m.niceness ∧ i.environ = m.environ ∧ i.deathSignal = some 15
  | .setenv envs =>
    i.cwd = r.cwd m.cwd ∧ i.niceness = niceBy m.niceness r.nice i.cred.privileged ∧
      i.deathSignal = some 15 ∧
      ∃ done, done ++ envs = r.envs ∧
        i.environ = Environ.putAll m.environ (done.filterMap assignment)
  | .execv | .loading | .command =>
    i.cwd = r.cwd m.cwd ∧ i.niceness = niceBy m.niceness r.nice i.cred.privileged ∧
      i.deathSignal = some 15 ∧ i.environ = Environ.putAll m.environ r.assignments
  | .ended => True

/-- The child on its way to `execv`, with a request that has been completed to `r`. -/
structure Prepared (A : Accounts) (m : Image) (r : Request) (c : Child) (i : Image) : Prop where
  /-- `set_user` may have stored the user. -/
  request : ∃ user, c.request = { r with user := user }
  dropping : Cloned.Dropping A (Cloned.requested r) m.cred.groups ⟨c, i.cred⟩
  stage : Image.Stage m r i c.pc
  network : i.network = r.network

section

variable {A : Accounts} {m i : Image} {r : Request} {c c' : Child} {l : ChildLabel}

/-- The clone. -/
theorem Prepared.start (out err : Output) (hroot : m.cred.uid = .all 0) :
    Prepared A m r { request := r, out := out, err := err, pc := .dupOut }
      (m.cloned r.network) where
  request := ⟨r.user, rfl⟩
  dropping := ⟨rfl, rfl, hroot⟩
  stage := ⟨rfl, rfl, rfl⟩
  network := rfl

theorem Prepared.step (h : Prepared A m r c i) (hfinds : Cloned.finds A l = true)
    (hstep : c.step l = some c') : Prepared A m r c' (i.after l) := by
  -- for the ids there is an invariant already
  have hdropping : Cloned.Dropping A (Cloned.requested r) m.cred.groups ⟨c', (i.after l).cred⟩ := by
    refine h.dropping.step (l := l) ?_
    exact Cloned.step_eq_some.mpr ⟨hfinds, hstep, i.after_cred l⟩
  obtain ⟨user, hrequest⟩ := h.request
  have hstage := h.stage
  suffices hs : (∃ user, c'.request = { r with user := user }) ∧ Image.Stage m r (i.after l) c'.pc
    from ⟨hs.1, hdropping, hs.2, (i.after_network l).trans h.network⟩
  cases Child.step_cases hstep with
  -- the two `dup2` change descriptors only, and the image has none
  | dupOut hpc | dupErr hpc =>
    rw [hpc] at hstage
    exact ⟨⟨user, hrequest⟩, hstage⟩
  -- `execute` ends, and nothing is said of a child that has ended
  | unknown hpc => exact ⟨⟨user, hrequest⟩, trivial⟩
  | known gid uid hpc =>
    rw [hpc] at hstage
    -- the user is stored in the request, for the error message
    refine ⟨⟨c.user, ?_⟩, hstage⟩
    show { c.request with user := c.user } = { r with user := c.user }
    rw [hrequest]
  | setgid ok hpc | setuid ok hpc =>
    rw [hpc] at hstage
    -- a call that fails ends the child
    cases ok with
    | false => exact ⟨⟨user, hrequest⟩, trivial⟩
    | true => exact ⟨⟨user, hrequest⟩, hstage⟩
  -- with an empty `chroot` the directory is the manager's
  | stay hpc hroot =>
    rw [hpc] at hstage
    rw [hrequest] at hroot
    have hcwd : i.cwd = r.cwd m.cwd := by rw [Request.cwd, if_pos hroot, hstage.1]
    exact ⟨⟨user, hrequest⟩, hcwd, hstage.2⟩
  | chdir ok hpc hroot =>
    rw [hpc] at hstage
    cases ok with
    | false => exact ⟨⟨user, hrequest⟩, trivial⟩
    | true =>
      rw [hrequest] at hroot
      have hcwd : chdirTo i.cwd (cstr c.request.chroot) = r.cwd m.cwd := by
        rw [Request.cwd, if_neg hroot, hstage.1, hrequest]
      exact ⟨⟨user, hrequest⟩, hcwd, hstage.2⟩
  | prctl hpc =>
    rw [hpc] at hstage
    exact ⟨⟨user, hrequest⟩, hstage.1, hstage.2.1, hstage.2.2, rfl⟩
  | nice hpc =>
    rw [hpc] at hstage
    obtain ⟨hcwd, hnice, henviron, hdeath⟩ := hstage
    -- no entry has been set yet
    refine ⟨⟨user, hrequest⟩, hcwd, ?_, hdeath, [], ?_, henviron⟩
    · show niceBy i.niceness c.request.nice _ = _
      rw [hnice, hrequest]
      rfl
    · rw [hrequest]
      rfl
  | setenvDone hpc =>
    rw [hpc] at hstage
    obtain ⟨hcwd, hnice, hdeath, done, hdone, henviron⟩ := hstage
    -- no entry is left, so all of them have been set
    rw [List.append_nil] at hdone
    rw [hdone] at henviron
    exact ⟨⟨user, hrequest⟩, hcwd, hnice, hdeath, henviron⟩
  | @setenvSkip env envs hpc hskip =>
    rw [hpc] at hstage
    obtain ⟨hcwd, hnice, hdeath, done, hdone, henviron⟩ := hstage
    -- an entry that sets nothing counts as set
    refine ⟨⟨user, hrequest⟩, hcwd, hnice, hdeath, done ++ [env], ?_, ?_⟩
    · rw [List.append_assoc]
      exact hdone
    · rw [List.filterMap_append, List.filterMap_cons_none (assignment_eq_none hskip),
        List.filterMap_nil, List.append_nil]
      exact henviron
  | @setenv env name value envs hpc hset =>
    rw [hpc] at hstage
    obtain ⟨hcwd, hnice, hdeath, done, hdone, henviron⟩ := hstage
    refine ⟨⟨user, hrequest⟩, hcwd, hnice, hdeath, done ++ [env], ?_, ?_⟩
    · rw [List.append_assoc]
      exact hdone
    -- the entry is the last assignment so far
    · have hone : [env].filterMap assignment = (assignment env).toList := by
        cases henv : assignment env with
        | none => rw [List.filterMap_cons_none henv]; rfl
        | some p => rw [List.filterMap_cons_some henv]; rfl
      show Srun.setenv i.environ name value = _
      rw [setenv_eq hset, henviron, ← Environ.putAll_append, List.filterMap_append, hone]
  | execv hpc =>
    rw [hpc] at hstage
    exact ⟨⟨user, hrequest⟩, hstage⟩
  | loaded ok hpc =>
    rw [hpc] at hstage
    cases ok with
    | false => exact ⟨⟨user, hrequest⟩, trivial⟩
    | true => exact ⟨⟨user, hrequest⟩, hstage⟩

/-- What has been reached at `execv`. -/
theorem Prepared.asAsked {fs : FileSystem} {argv : List String}
    (hfind : findCommand fs r = (true, (findCommand fs r).2))
    (h : Prepared A m (findCommand fs r).2 c i) (hstep : c.step (.execv argv) = some c') :
    AsAsked A m fs r argv i := by
  obtain ⟨user, hrequest⟩ := h.request
  have hstage := h.stage
  -- the user's ids, as they have been since `setuid`
  have hids := h.dropping.stage
  have hgroups := h.dropping.groups
  cases Child.step_cases hstep with
  | execv hpc =>
    rw [hpc] at hstage hids
    obtain ⟨hcwd, hnice, hdeath, henviron⟩ := hstage
    obtain ⟨gid, uid, hpw, hgid, huid⟩ := hids
    -- apart from the arguments the completed request is the request
    obtain ⟨args, hargs⟩ : ∃ args, (findCommand fs r).2 = { r with args := args } :=
      findCommand_request
    have hroot : i.cred.privileged = decide (uid = 0) := by rw [Credentials.privileged, huid]; rfl
    rw [hroot] at hnice
    refine ⟨⟨congrArg Prod.fst hfind, by rw [hrequest]⟩, ⟨gid, uid, ?_, ?_, ?_⟩, ?_, hdeath, ?_, ?_⟩
    · rwa [hargs] at hpw
    · rw [← huid, ← hgid, ← hgroups]
    · rwa [hargs] at hnice
    · rwa [hargs] at hcwd
    · rw [h.network, hargs]
    -- what is looked up last has been put last
    · intro name
      rw [henviron, Environ.lookup_putAll, hargs]
      rfl

end

/-! ### The manager -/

/-- The points of `handle_request` before the lookup. -/
def Pc.asking : Pc → Bool
  | .handle .entry _ _ | .handle .find _ _ => true
  | _ => false

/-- The request that is being handled is the client's; after the lookup, as that has completed
it. -/
structure Manager.Ordered (looked : List FileSystem) (r : Request) (s : Manager) : Prop where
  asking : s.pc.asking = true → s.request = r
  found : s.pc.found = true → ∃ fs ∈ looked, findCommand fs r = (true, s.request)

namespace Proc

variable {E : Env} {p p' : Proc} {looked looked' : List FileSystem} {r : Request} {ev : Event}

/-- Elsewhere nothing is asked of the request. -/
theorem ordered_of_not {s : Manager} (ha : s.pc.asking = false) (hf : s.pc.found = false) :
    s.Ordered looked r where
  asking h := by rw [ha] at h; cases h
  found h := by rw [hf] at h; cases h

theorem Ordered.mono {s : Manager} (h : s.Ordered looked r) (hsub : looked ⊆ looked') :
    s.Ordered looked' r := by
  refine ⟨h.asking, fun hf => ?_⟩
  obtain ⟨fs, hfs, hfind⟩ := h.found hf
  exact ⟨fs, hsub hfs, hfind⟩

/-- The file system that a step looks at. -/
def looks : Event → Option FileSystem
  | .mgr (.lookup fs) => fs
  | _ => none

theorem Ordered.step (h : p.mgr.Ordered looked r) (hstep : Proc.Step E p ev p')
    (hexe : ∀ m ∈ p'.hist.received, m.method = .exe → E.loadRequest m.getRequest = some r) :
    p'.mgr.Ordered (looked ++ (looks ev).toList) r := by
  have hmono : p.mgr.Ordered (looked ++ (looks ev).toList) r :=
    -- before the step, with one file system more that has been looked at
    Ordered.mono h (List.subset_append_left _ _)
  cases hstep with
  | exit => exact hmono
  | @mgr l m hadm hm =>
    -- a point that is no such point
    have hother : ∀ {s : Manager}, (s.pc.asking || s.pc.found) = false →
        s.Ordered (looked ++ (looks (.mgr l)).toList) r := fun hs => by
      obtain ⟨ha, hf⟩ := Bool.or_eq_false_iff.mp hs
      exact ordered_of_not ha hf
    cases hm with
    | sigterm => exact ⟨hmono.asking, hmono.found⟩
    | waitOther hpc => exact hmono
    | @received data evs m hpc hdata hm =>
      by_cases hmethod : m.method = .exe
      · -- the request of an EXE, with its group
        have hmem : m ∈ (p.histAfter E (.read none)).received := by
          have hrec : (p.histAfter E (.read none)).received =
              p.hist.received ++ (E.parse data).toList := by
            simp only [histAfter, hpc, if_neg hdata]
          rw [hrec, hm]
          exact List.mem_append_right _ (List.mem_singleton_self m)
        have hload := hexe m hmem hmethod
        have heq : Manager.received E p.mgr data m evs =
            { p.mgr with request := r, pc := .handle .entry data evs } := by
          simp only [Manager.received, hmethod, hload]
        rw [heq]
        exact ⟨fun _ => rfl, fun hf => (by cases hf)⟩
      · refine hother ?_
        unfold Manager.received
        split
        case h_3 heq => exact absurd heq hmethod
        all_goals rfl
    -- a command is there already, or the request goes on to the lookup
    | handleAccept hpc hle =>
      exact ⟨fun _ => h.asking (by rw [hpc]; rfl), fun hf => (by cases hf)⟩
    | @findFound data evs fs r' hpc hfind =>
      rw [h.asking (by rw [hpc]; rfl)] at hfind
      -- the lookup is the one of this step
      refine ⟨fun ha => (by cases ha), fun _ => ⟨fs, ?_, hfind⟩⟩
      exact List.mem_append_right _ (List.mem_singleton_self fs)
    | loadOut hpc | loadErr hpc =>
      exact ⟨fun ha => (by cases ha), fun _ => hmono.found (by rw [hpc]; rfl)⟩
    -- the other steps lead to points before the request or after the clone
    | loopCheck hpc => exact hother (Manager.loopCheck_pc rfl (fun _ _ _ => rfl) fun _ => rfl)
    | dispatch evs hpc =>
      exact hother (Manager.dispatch_pc rfl (fun _ => rfl) (fun _ _ => rfl) (fun _ _ => rfl)
        fun _ => rfl)
    | reap hpc => exact hother (Manager.reaped_pc rfl rfl rfl)
    | argsSurvive hpc => exact hother (Manager.clearEntry_pc rfl rfl)
    | @waitNone k hpc => exact hother (by cases k <;> rfl)
    | @stopKill k hpc | @stopIdle k hpc => exact hother (by cases k <;> rfl)
    | @sent m k data hpc => exact hother (by cases k <;> rfl)
    | _ => exact hother rfl

/-- At the clone the lookup has been made. -/
theorem found_of_clone {pid : Int} (hpid : pid ≠ -1)
    (hstep : p.step E (.mgr (.clone pid)) = some p') : p.mgr.pc.found = true := by
  cases step_cases hstep with
  | mgr hadm hm =>
    cases hm with
    -- a failed clone gives no pid
    | clone hpc => rw [hpc]; rfl
    | cloneFail => exact absurd rfl hpid
    | throws hl => cases (Pc.throwing_of_throws hl).2

end Proc

/-! ### The task -/

/-- A job, the image of the child cloned last, and the file systems that the manager has looked
at. -/
structure Task where
  job : Job
  image : Image
  looked : List FileSystem := []

namespace Task

/-- The daemon has accepted the client's connection as `fd` and forked a manager with the
image `m`. -/
def start (m : Image) (fd : ℕ) : Task := { job := Job.start fd, image := m }

/-- `getpwnam` finds what the database holds, or fails. -/
def finds (A : Accounts) : JobEvent → Bool
  | .launch (.child l) => Cloned.finds A l
  | _ => true

/-- The image of the child cloned last. -/
def imageAfter (m : Image) (t : Task) : JobEvent → Image
  | .launch (.server (.clone pid)) =>
    if pid = -1 then t.image else m.cloned t.job.verdict.launch.proc.mgr.request.network
  | .launch (.child l) => t.image.after l
  | _ => t.image

def lookedAt : JobEvent → Option FileSystem
  | .launch (.server (.lookup fs)) => fs
  | _ => none

/-- One step. -/
def step (A : Accounts) (m : Image) (E : Env) (call : Call) (t : Task) (ev : JobEvent) :
    Option Task :=
  if finds A ev then
    (t.job.step E call ev).map fun j =>
      { job := j, image := imageAfter m t ev, looked := t.looked ++ (lookedAt ev).toList }
  else none

/-- The cloned process. -/
def child (t : Task) : Child := t.job.verdict.launch.child

/-- The invariant of a task for the request `r`. -/
structure Going (A : Accounts) (m : Image) (E : Env) (r₀ r : Request) (t : Task) : Prop where
  same : t.job.session.proc = t.job.verdict.launch.proc
  agreed : Session.Agreed E (.run r₀) t.job.session
  ordered : t.job.session.proc.mgr.Ordered t.looked r
  child : t.child.pc ≠ .ended → ∃ fs ∈ t.looked, (findCommand fs r).1 = true ∧
    Prepared A m (findCommand fs r).2 t.child t.image

variable {A : Accounts} {m : Image} {E : Env} {r₀ r : Request} {t t' : Task} {ev : JobEvent}

theorem Going.start (fd : ℕ) : Going A m E r₀ r (start m fd) where
  same := rfl
  agreed := .start fd
  ordered := Proc.ordered_of_not rfl rfl
  child := fun h => absurd rfl h

/-- The request that arrives is the client's. -/
theorem received_exe {s : Session} (h : Session.Agreed E (.run r₀) s)
    (hr : E.loadRequest r₀ = some r) :
    ∀ m ∈ s.proc.hist.received, m.method = .exe → E.loadRequest m.getRequest = some r := by
  intro m hm hmethod
  -- the first message is the request, the others are ACKs
  rcases h.received with hnil | ⟨acks, heq, hacks⟩
  · rw [hnil] at hm
    cases hm
  · rw [heq] at hm
    rcases List.mem_cons.mp hm with rfl | hm
    · exact hr
    · rw [hacks m hm] at hmethod
      cases hmethod

/-- What becomes of the child of a launch: the child takes a step, ends, or is replaced by a new
clone with a copy of the manager's request and outputs. -/
def Becomes (n : Launch) (c : Child) : LaunchEvent → Prop
  | .child l => n.child.step l = some c
  | .exit _ => c.pc = .ended
  | .server (.clone pid) =>
    c = if pid = -1 then n.child else
      { request := n.proc.mgr.request, out := n.proc.mgr.out, err := n.proc.mgr.err, pc := .dupOut }
  | _ => c = n.child

theorem becomes_of_step {v v' : Verdict} {ev : LaunchEvent} (hstep : v.step E ev = some v') :
    Becomes v.launch v'.launch.child ev := by
  -- a job without its session is the launch
  obtain ⟨-, n, hn, rfl⟩ := Verdict.step_eq_some.mp hstep
  rw [Job.after_launch]
  cases ev with
  | server l =>
    obtain ⟨p, -, rfl⟩ := Option.map_eq_some_iff.mp hn
    cases l with
    | clone pid =>
      show (if pid = -1 then v.launch else _ : Launch).child = _
      split <;> rfl
    | writeCgroup leaf file value r =>
      -- whether or not the write moves the child, it does not change it
      cases file <;> cases r <;> first | rfl | skip
      show (if value = toString v.launch.pid then _ else v.launch : Launch).child = v.launch.child
      split <;> rfl
    | _ => rfl
  | child l =>
    obtain ⟨-, hn⟩ := Option.ite_none_right_eq_some.mp hn
    obtain ⟨c, hc, rfl⟩ := Option.map_eq_some_iff.mp hn
    exact hc
  | exit st =>
    obtain ⟨p, -, rfl⟩ := Option.map_eq_some_iff.mp hn
    rfl
  | fork =>
    obtain ⟨-, hn⟩ := Option.ite_none_right_eq_some.mp hn
    cases hn
    rfl
  | refork i =>
    obtain ⟨d, -, rfl⟩ := Option.map_eq_some_iff.mp hn
    rfl
  | gone i =>
    cases hn
    rfl

/-- A step that leaves the child and its image alone. -/
theorem Going.kept (h : Going A m E r₀ r t) {c : Child} (hc : c = t.child)
    (fss : List FileSystem) (hpc : c.pc ≠ .ended) :
    ∃ fs ∈ t.looked ++ fss, (findCommand fs r).1 = true ∧
      Prepared A m (findCommand fs r).2 c t.image := by
  rw [hc] at hpc ⊢
  obtain ⟨fs, hfs, hprepared⟩ := h.child hpc
  exact ⟨fs, List.mem_append_left _ hfs, hprepared⟩

/-- The manager process clones the child, or sees its end, or leaves it alone. -/
theorem Going.launched (h : Going A m E r₀ r t) (hroot : m.cred.uid = .all 0)
    {ev : LaunchEvent} {v : Verdict} (hv : t.job.verdict.step E ev = some v)
    (hev : ∀ l, ev ≠ .child l) (hpc : v.launch.child.pc ≠ .ended) :
    ∃ fs ∈ t.looked ++ (lookedAt (.launch ev)).toList, (findCommand fs r).1 = true ∧
      Prepared A m (findCommand fs r).2 v.launch.child (imageAfter m t (.launch ev)) := by
  have hchild := becomes_of_step hv
  cases ev with
  | child l => exact absurd rfl (hev l)
  | exit st => exact absurd hchild hpc
  | fork | refork i | gone i => exact h.kept hchild _ hpc
  | server l =>
    cases l with
    | clone pid =>
      by_cases hpid : pid = -1
      · rw [imageAfter, if_pos hpid]
        exact h.kept (Eq.trans hchild (if_pos hpid)) _ hpc
      · rw [imageAfter, if_neg hpid, Eq.trans hchild (if_neg hpid), ← h.same]
        have hclone := Job.launch_proc hv
        rw [← h.same] at hclone
        obtain ⟨fs, hfs, hfind⟩ := h.ordered.found (Proc.found_of_clone hpid hclone)
        -- the child begins with a copy of the request, completed by the lookup
        refine ⟨fs, List.mem_append_left _ hfs, by rw [hfind], ?_⟩
        rw [hfind]
        exact .start _ _ hroot
    | _ => exact h.kept hchild _ hpc

theorem Going.step (h : Going A m E r₀ r t) (hne : E.WritesBytes) (hE : E.ParsesBack)
    (hr : E.loadRequest r₀ = some r) (hroot : m.cred.uid = .all 0)
    (hstep : t.step A m E (.run r₀) ev = some t') :
    Going A m E r₀ r t' := by
  obtain ⟨hfinds, hstep⟩ := Option.ite_none_right_eq_some.mp hstep
  obtain ⟨j, hj, rfl⟩ := Option.map_eq_some_iff.mp hstep
  cases Job.step_cases hj with
  | @client ev s hs hproc =>
    refine ⟨hproc.trans h.same, h.agreed.step hne hE hs, ?_, h.kept rfl _⟩
    -- the client takes a step; the manager is not touched by it
    show s.proc.mgr.Ordered _ r
    rw [hproc]
    exact Proc.Ordered.mono h.ordered (List.subset_append_left _ _)
  | @both ev e s v hsees hv hs =>
    -- a step of the manager, which the session sees
    obtain ⟨hp, hsame⟩ := Job.both_proc h.same hsees hv hs
    have hagreed := h.agreed.step hne hE hs
    have hev : ∀ l, ev ≠ .child l := by
      rintro l rfl
      cases hsees
    -- what the manager looks at is recorded in the task
    have hlooks : Proc.looks e = lookedAt (.launch ev) := by
      cases ev with
      | server l =>
        obtain rfl := Option.some.inj hsees
        cases l <;> rfl
      | exit st =>
        obtain rfl := Option.some.inj hsees
        rfl
      | _ => cases hsees
    refine ⟨hsame, hagreed, ?_, h.launched hroot hv hev⟩
    show s.proc.mgr.Ordered (t.looked ++ _) r
    rw [← hlooks]
    exact Proc.Ordered.step h.ordered hp (received_exe hagreed hr)
  | @alone ev v hsees hv =>
    -- a step of the child or of the kernel, of which the session sees nothing
    have hproc := Job.proc_of_alone hsees hv
    refine ⟨h.same.trans hproc.symm, h.agreed,
      Proc.Ordered.mono h.ordered (List.subset_append_left _ _), fun hpc => ?_⟩
    by_cases hev : ∀ l, ev ≠ .child l
    · exact h.launched hroot hv hev hpc
    · -- the child takes a step, so it has not ended before
      obtain ⟨l, rfl⟩ : ∃ l, ev = .child l := by simpa using hev
      have hc : t.child.step l = some v.launch.child := becomes_of_step hv
      have hgoing : t.child.pc ≠ .ended := fun hend => by
        rw [Child.step_ended hend] at hc
        cases hc
      obtain ⟨fs, hfs, hfound, hprepared⟩ := h.child hgoing
      exact ⟨fs, List.mem_append_left _ hfs, hfound, hprepared.step hfinds hc⟩

/-- `ls` with a variable that is given twice, and an entry that sets nothing. -/
def lsRequest : Request := { args := ["ls"], envs := ["A=1", "B", "A=2"] }

/-- The encoding of the EXE message for it. -/
def lsData : Chunk where
  bytes := [26, 17, 10, 2, 108, 115, 122, 3, 65, 61, 49, 122, 1, 66, 122, 3, 65, 61, 50]
  pos := by decide
  le := by decide

/-- The image of a manager of root. -/
def rootImage : Image where
  cred := .root (.all 0) [0]
  cwd := "/"
  niceness := 0
  deathSignal := none
  environ := [("A", "0"), ("PATH", "/sbin")]
  network := true

/-- Up to the call of `execv`, which the child reaches before the manager goes on. -/
def lsEvents : List JobEvent :=
  let server := Proc.bootLabels ++ Proc.receiveLabels lsData ++
    (Proc.handleLabels lsData.bytes 100).take 5
  let child : List ChildLabel :=
    [.dup 1 none, .dup 2 none, .getpwnam "nobody" (some (99, 99)), .setgid 99 true,
      .setuid 99 true, .tau, .prctl, .nice 0, .setenv "A" "1", .tau, .setenv "A" "2", .tau]
  .client .send :: (server.map LaunchEvent.server ++ child.map LaunchEvent.child).map .launch

end Task

end Srun
