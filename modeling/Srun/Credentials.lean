import Srun.Execute
import Srun.Framework.Machine

/-!
# The credentials with which a command is executed

`Cloned` is the cloned process together with its credentials, as the kernel keeps them: the
real, effective and saved user and group id, and the supplementary groups. A system call
that succeeds changes them as the kernel does; the manager, and with it the clone, runs as
root and may have any supplementary groups.

`execute` calls `setgid` and `setuid`, and neither changes the supplementary groups, so the
process arrives at `execv` with those it has inherited. `dropped_iff` says that this is the
only thing that can be wrong.
-/

namespace Srun

/-- The real, the effective and the saved id of a process. -/
structure Ids where
  real : ℕ
  effective : ℕ
  saved : ℕ
  deriving DecidableEq

/-- All three ids are `n`. -/
def Ids.all (n : ℕ) : Ids := ⟨n, n, n⟩

/-- `setuid` or `setgid` with `n`: a privileged process sets all three. -/
def Ids.set (ids : Ids) (privileged : Bool) (n : ℕ) : Ids :=
  if privileged then .all n else { ids with effective := n }

structure Credentials where
  uid : Ids
  gid : Ids
  /-- The supplementary groups. -/
  groups : List ℕ
  deriving DecidableEq

/-- The user and group databases. -/
structure Accounts where
  /-- The group and the user id that `getpwnam` finds. -/
  passwd : String → Option (ℕ × ℕ)
  /-- The user is a member of the group. -/
  member : String → ℕ → Bool

namespace Credentials

/-- The credentials of a process of root. -/
def root (gid : Ids) (groups : List ℕ) : Credentials := ⟨.all 0, gid, groups⟩

def privileged (c : Credentials) : Bool := c.uid.effective = 0

/-- The credentials after a call of `execute`. -/
def after (c : Credentials) : ChildLabel → Credentials
  | .setgid gid true => { c with gid := c.gid.set c.privileged gid }
  | .setuid uid true => { c with uid := c.uid.set c.privileged uid }
  | _ => c

theorem after_groups (c : Credentials) (l : ChildLabel) : (c.after l).groups = c.groups := by
  unfold after
  split <;> rfl

/-- What `setgid` and `setuid` are to reach: the ids of the user, and no group that the user
is not in. -/
structure Dropped (A : Accounts) (user : String) (c : Credentials) : Prop where
  ids : ∃ gid uid, A.passwd user = some (gid, uid) ∧ c.gid = .all gid ∧ c.uid = .all uid
  groups : ∀ g ∈ c.groups, A.member user g = true

end Credentials

/-- The lookup of the user or one of the two credential calls fails. -/
def ChildLabel.refused : ChildLabel → Bool
  | .getpwnam _ none | .setgid _ false | .setuid _ false => true
  | _ => false

namespace Child

variable {c c' : Child} {l : ChildLabel} {ls : List ChildLabel}

/-- A refusal ends `execute`. -/
theorem ended_of_refused (h : c.step l = some c') (hl : l.refused = true) : c'.pc = .ended := by
  cases step_cases h with
  | unknown => rfl
  | setgid ok | setuid ok => cases ok <;> first | rfl | cases hl
  | _ => cases hl

theorem step_ended (h : c.pc = .ended) : c.step l = none := by
  unfold step
  rw [h]

/-- Where `execute` has not ended, nothing has been refused. -/
theorem refused_eq_false (h : Machine.exec step c ls = some c') (hpc : c'.pc ≠ .ended) :
    ∀ l ∈ ls, l.refused = false := by
  induction ls generalizing c with
  | nil => simp
  | cons l ls ih =>
    obtain ⟨c₁, h1, h2⟩ := Machine.exec_cons_eq_some.mp h
    rw [List.forall_mem_cons]
    refine ⟨Bool.eq_false_iff.mpr fun hl => ?_, ih h2⟩
    have hended := ended_of_refused h1 hl
    -- there is no step from there, so that the run is over
    cases ls with
    | nil =>
      obtain rfl : c₁ = c' := Option.some.inj h2
      exact hpc hended
    | cons l' ls =>
      obtain ⟨c₂, h3, -⟩ := Machine.exec_cons_eq_some.mp h2
      rw [step_ended hended] at h3
      cases h3

/-! ### The run in which every call succeeds -/

/-- The loop over `request.envs`. -/
def setenvLabels : List String → List ChildLabel
  | [] => [.tau]
  | env :: envs =>
    (match splitEnv env with
      | none => .tau
      | some (name, value) => .setenv name value) :: setenvLabels envs

theorem exec_setenvLabels {envs : List String} (hpc : c.pc = .setenv envs) :
    Machine.exec step c (setenvLabels envs) = some (c.goto .execv) := by
  induction envs generalizing c with
  | nil =>
    exact Machine.exec_cons_eq_some.mpr ⟨_, (Step.setenvDone hpc).step_eq, rfl⟩
  | cons env envs ih =>
    refine Machine.exec_cons_eq_some.mpr ⟨c.goto (.setenv envs), ?_, ih rfl⟩
    cases henv : splitEnv env with
    | none => exact (Step.setenvSkip hpc henv).step_eq
    | some nv => exact (Step.setenv hpc henv).step_eq

/-- `execute` up to the call of `execv`, for a user with these ids. -/
def execvLabels (c : Child) (gid uid : ℕ) : List ChildLabel :=
  [.dup 1 c.out.dupSource, .dup 2 c.err.dupSource, .getpwnam (cstr c.user) (some (gid, uid)),
    .setgid gid true, .setuid uid true,
    if c.request.chroot = "" then .tau else .chdir (cstr c.request.chroot) true,
    .prctl, .nice c.request.nice] ++ setenvLabels c.request.envs

/-- **Every request gets there.** When the user is known and no call fails, `execute`
reaches `execv`. -/
theorem exec_execvLabels (gid uid : ℕ) (hpc : c.pc = .dupOut) :
    Machine.exec step c (c.execvLabels gid uid) =
      some { c with request.user := c.user, pc := .execv } := by
  have hroot : ∀ c : Child, c.pc = .chdir →
      c.step (if c.request.chroot = "" then .tau else .chdir (cstr c.request.chroot) true) =
        some (c.goto .prctl) := by
    intro c hpc
    by_cases hroot : c.request.chroot = ""
    · rw [if_pos hroot]
      exact (Step.stay hpc hroot).step_eq
    · rw [if_neg hroot]
      exact (Step.chdir true hpc hroot).step_eq
  refine Machine.exec_cons_eq_some.mpr ⟨_, (Step.dupOut hpc).step_eq, ?_⟩
  refine Machine.exec_cons_eq_some.mpr ⟨_, (Step.dupErr rfl).step_eq, ?_⟩
  refine Machine.exec_cons_eq_some.mpr ⟨_, (Step.known gid uid rfl).step_eq, ?_⟩
  refine Machine.exec_cons_eq_some.mpr ⟨_, (Step.setgid true rfl).step_eq, ?_⟩
  refine Machine.exec_cons_eq_some.mpr ⟨_, (Step.setuid true rfl).step_eq, ?_⟩
  refine Machine.exec_cons_eq_some.mpr ⟨_, hroot _ rfl, ?_⟩
  refine Machine.exec_cons_eq_some.mpr ⟨_, (Step.prctl rfl).step_eq, ?_⟩
  refine Machine.exec_cons_eq_some.mpr ⟨_, (Step.nice rfl).step_eq, ?_⟩
  exact exec_setenvLabels rfl

end Child

/-- The cloned process and its credentials. -/
structure Cloned where
  child : Child
  cred : Credentials

namespace Cloned

/-- The process that `clone` makes of a manager of root. -/
def start (r : Request) (out err : Output) (cred : Credentials) : Cloned :=
  { child := { request := r, out := out, err := err, pc := .dupOut }, cred := cred }

/-- `getpwnam` finds what the database holds, or fails. -/
def finds (A : Accounts) : ChildLabel → Bool
  | .getpwnam user (some pw) => A.passwd user = some pw
  | _ => true

/-- One step of `execute`. -/
def step (A : Accounts) (s : Cloned) (l : ChildLabel) : Option Cloned :=
  if finds A l then (s.child.step l).map fun c => ⟨c, s.cred.after l⟩ else none

variable {A : Accounts} {s s' : Cloned} {l : ChildLabel} {ls : List ChildLabel}

theorem step_eq_some : s.step A l = some s' ↔
    finds A l = true ∧ s.child.step l = some s'.child ∧ s'.cred = s.cred.after l := by
  unfold step
  rw [Option.ite_none_right_eq_some, Option.map_eq_some_iff]
  refine and_congr_right fun _ => ⟨?_, ?_⟩
  · rintro ⟨c, hc, rfl⟩
    exact ⟨hc, rfl⟩
  · rintro ⟨hc, hcred⟩
    exact ⟨s'.child, hc, by rw [← hcred]⟩

/-- A run of the process with its credentials is a run of `execute`. -/
theorem exec_child (h : Machine.exec (step A) s ls = some s') :
    Machine.exec Child.step s.child ls = some s'.child := by
  induction ls generalizing s with
  | nil =>
    obtain rfl : s = s' := Option.some.inj h
    rfl
  | cons l ls ih =>
    obtain ⟨s₁, h1, h2⟩ := Machine.exec_cons_eq_some.mp h
    exact Machine.exec_cons_eq_some.mpr ⟨s₁.child, (step_eq_some.mp h1).2.1, ih h2⟩

/-- A run of `execute` in which `getpwnam` finds what is there. -/
theorem exec_of_child {c : Child} (h : Machine.exec Child.step s.child ls = some c)
    (hfinds : ∀ l ∈ ls, finds A l = true) :
    ∃ cred, Machine.exec (step A) s ls = some ⟨c, cred⟩ := by
  induction ls generalizing s with
  | nil =>
    obtain rfl : s.child = c := Option.some.inj h
    exact ⟨s.cred, rfl⟩
  | cons l ls ih =>
    obtain ⟨c₁, h1, h2⟩ := Machine.exec_cons_eq_some.mp h
    obtain ⟨hl, hls⟩ := List.forall_mem_cons.mp hfinds
    obtain ⟨cred, hcred⟩ := ih (s := ⟨c₁, s.cred.after l⟩) h2 hls
    exact ⟨cred, Machine.exec_cons_eq_some.mpr ⟨_, step_eq_some.mpr ⟨hl, h1, rfl⟩, hcred⟩⟩

theorem finds_setenvLabels (envs : List String) :
    ∀ l ∈ Child.setenvLabels envs, finds A l = true := by
  induction envs with
  | nil => simp [Child.setenvLabels, finds]
  | cons env envs ih =>
    rw [Child.setenvLabels, List.forall_mem_cons]
    refine ⟨?_, ih⟩
    split <;> rfl

/-- The run in which no call fails, when the database has the user. -/
theorem finds_execvLabels {c : Child} {gid uid : ℕ} (h : A.passwd (cstr c.user) = some (gid, uid)) :
    ∀ l ∈ c.execvLabels gid uid, finds A l = true := by
  intro l hl
  rcases List.mem_append.mp hl with hl | hl
  · simp only [List.mem_cons, List.not_mem_nil, or_false] at hl
    rcases hl with rfl | rfl | rfl | rfl | rfl | rfl | rfl | rfl
    · rfl
    · rfl
    · exact decide_eq_true h
    · rfl
    · rfl
    · split <;> rfl
    · rfl
    · rfl
  · exact finds_setenvLabels _ l hl

/-! ### What the two calls reach -/

/-- The ids of the process at a point of `execute`. -/
def Stage (A : Accounts) (user : String) (cred : Credentials) : ChildPc → Prop
  | .dupOut | .dupErr | .getpwnam => cred.uid = .all 0
  | .setgid gid uid => A.passwd user = some (gid, uid) ∧ cred.uid = .all 0
  | .setuid uid =>
    ∃ gid, A.passwd user = some (gid, uid) ∧ cred.gid = .all gid ∧ cred.uid = .all 0
  | .ended => True
  | _ => ∃ gid uid, A.passwd user = some (gid, uid) ∧ cred.gid = .all gid ∧ cred.uid = .all uid

/-- On the way to `execv` for `user`, with the groups that have been inherited. -/
structure Dropping (A : Accounts) (name : String) (inherited : List ℕ) (s : Cloned) : Prop where
  user : cstr s.child.user = name
  groups : s.cred.groups = inherited
  stage : Stage A name s.cred s.child.pc

theorem user_ne_empty (c : Child) : c.user ≠ "" := by
  unfold Child.user
  split
  · simp
  · next h => exact h

/-- Storing the user in the request does not change who it is. -/
theorem user_set (c : Child) (pc : ChildPc) :
    Child.user { c with request.user := c.user, pc := pc } = c.user :=
  if_neg (user_ne_empty c)

theorem Dropping.step {name : String} {inherited : List ℕ} (h : Dropping A name inherited s)
    (hstep : s.step A l = some s') : Dropping A name inherited s' := by
  obtain ⟨hfinds, hchild, hcred⟩ := step_eq_some.mp hstep
  have hgroups : s'.cred.groups = inherited := by
    rw [hcred, Credentials.after_groups]
    exact h.groups
  obtain ⟨c, cred⟩ := s'
  obtain rfl : cred = s.cred.after l := hcred
  have hstage := h.stage
  cases Child.step_cases hchild with
  | known gid uid hpc =>
    rw [hpc] at hstage
    refine ⟨(congrArg cstr (user_set s.child _)).trans h.user, hgroups, ?_, hstage⟩
    -- this is the entry of the database
    have hpw : A.passwd (cstr s.child.user) = some (gid, uid) := of_decide_eq_true hfinds
    rwa [h.user] at hpw
  | @setgid gid uid ok hpc =>
    cases ok with
    | false => exact ⟨h.user, hgroups, trivial⟩
    | true =>
      rw [hpc] at hstage
      obtain ⟨hpw, huid⟩ := hstage
      -- the process is still root, so that all three ids are set
      have hroot : s.cred.privileged = true := by rw [Credentials.privileged, huid]; rfl
      refine ⟨h.user, hgroups, gid, hpw, ?_, huid⟩
      show s.cred.gid.set s.cred.privileged gid = .all gid
      rw [hroot]
      rfl
  | @setuid uid ok hpc =>
    cases ok with
    | false => exact ⟨h.user, hgroups, trivial⟩
    | true =>
      rw [hpc] at hstage
      obtain ⟨gid, hpw, hgid, huid⟩ := hstage
      have hroot : s.cred.privileged = true := by rw [Credentials.privileged, huid]; rfl
      refine ⟨h.user, hgroups, gid, uid, hpw, hgid, ?_⟩
      show s.cred.uid.set s.cred.privileged uid = .all uid
      rw [hroot]
      rfl
  | unknown => exact ⟨h.user, hgroups, trivial⟩
  | chdir ok hpc =>
    rw [hpc] at hstage
    cases ok with
    | false => exact ⟨h.user, hgroups, trivial⟩
    | true => exact ⟨h.user, hgroups, hstage⟩
  | loaded ok hpc =>
    rw [hpc] at hstage
    cases ok with
    | false => exact ⟨h.user, hgroups, trivial⟩
    | true => exact ⟨h.user, hgroups, hstage⟩
  | _ =>
    rw [‹s.child.pc = _›] at hstage
    exact ⟨h.user, hgroups, hstage⟩

/-- The user that a request asks for, as `getpwnam` sees the name. -/
def requested (r : Request) : String := cstr (if r.user = "" then "nobody" else r.user)

/-- Every arrival at `execv` is with the credentials of the requested user alone, and after
no refusal. -/
def DropsPrivileges (A : Accounts) (r : Request) (out err : Output) (cred : Credentials) : Prop :=
  ∀ ls s, Machine.exec (step A) (start r out err cred) ls = some s → s.child.pc = .execv →
    Credentials.Dropped A (requested r) s.cred ∧ ∀ l ∈ ls, l.refused = false

/-- **When privileges are dropped.** For a process that root has cloned, every arrival at
`execv` is with the ids of the requested user, with no supplementary group that the user is
not in, and after no refusal, if and only if the user is unknown or is a member of all the
supplementary groups of the manager. -/
theorem dropsPrivileges_iff (A : Accounts) (r : Request) (out err : Output) (gid : Ids)
    (groups : List ℕ) :
    DropsPrivileges A r out err (.root gid groups) ↔
      A.passwd (requested r) = none ∨ ∀ g ∈ groups, A.member (requested r) g = true := by
  have hinv : ∀ ls s, Machine.exec (step A) (start r out err (.root gid groups)) ls = some s →
      Dropping A (requested r) groups s := by
    intro ls s
    exact Machine.exec_invariant (fun _ _ _ h hstep => Dropping.step h hstep) ⟨rfl, rfl, rfl⟩
  constructor
  · intro hdrops
    refine or_iff_not_imp_left.mpr fun hknown => ?_
    obtain ⟨⟨pwgid, pwuid⟩, hpw⟩ := Option.ne_none_iff_exists'.mp hknown
    -- the run in which nothing fails arrives with the groups of the manager
    obtain ⟨cred, hrun⟩ := exec_of_child (A := A) (s := start r out err (.root gid groups))
      (Child.exec_execvLabels pwgid pwuid rfl) (finds_execvLabels hpw)
    have hgroups := (hinv _ _ hrun).groups
    have hdropped := (hdrops _ _ hrun rfl).1.groups
    intro g hg
    exact hdropped g (by rw [hgroups]; exact hg)
  · intro hcond ls s hrun hpc
    have hdropping := hinv ls s hrun
    have hstage := hdropping.stage
    rw [hpc] at hstage
    refine ⟨⟨hstage, fun g hg => ?_⟩, ?_⟩
    · obtain ⟨pwgid, pwuid, hpw, -⟩ := hstage
      rw [hpw] at hcond
      rw [hdropping.groups] at hg
      exact hcond.resolve_left (by simp) g hg
    · exact Child.refused_eq_false (exec_child hrun) (by rw [hpc]; simp)

/-- Accounts in which `nobody` has the ids 99 and is in no further group. -/
def nobodyAccounts : Accounts where
  passwd user := if user = "nobody" then some (99, 99) else none
  member _ g := g = 99

/-- A manager in group 0, as a daemon of root has it: `/bin/ls` runs as `nobody`, and
still in group 0. -/
theorem not_dropsPrivileges :
    ¬ ∀ (A : Accounts) (r : Request) (out err : Output) (gid : Ids) (groups : List ℕ),
      DropsPrivileges A r out err (.root gid groups) := by
  intro hdrops
  obtain ⟨s, hrun, hs⟩ := Machine.exec_of_any
    (show (Machine.exec (step nobodyAccounts)
        (start { args := ["/bin/ls"] } {} {} (.root (.all 0) [0]))
      (Child.execvLabels { request := { args := ["/bin/ls"] } } 99 99)).any
      (fun s => s.child.pc == .execv && s.cred.groups == [0]) = true by decide +kernel)
  simp only [Bool.and_eq_true, beq_iff_eq] at hs
  have hgroup := (hdrops _ _ _ _ _ _ _ s hrun hs.1).1.groups 0 (by simp [hs.2])
  cases hgroup

end Cloned
end Srun
