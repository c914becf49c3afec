import Srun.Daemon
import Srun.Framework.MountTable
import Srun.Manager.Cases
import Srun.Proto3

/-!
# The life of a daemon

`main` of `srund.cpp` around its loop: the start, whose calls throw when they fail, and
`clear_resource`, which runs at the end of every life, whatever has happened before. The
resources outlive the process. A daemon that is killed leaves all of them behind, one that
stops leaves its socket and its pid file, and the next daemon starts on what it finds.

`Host` is the machine with at most one daemon at a time: what its calls return depends on the
resources, and they may fail at any time besides. `starts_over_leftovers` says that nothing an
earlier life leaves behind makes a start fail, and that the registry is never mounted twice;
by `restarts` a start can succeed whatever is there. `left_behind` is what is there after a
stop, and `foreign_unmounted` is what happens to a file system that somebody else has mounted
on the registry's directory before. While daemons live and die, others mount and unmount
elsewhere only.
-/

namespace Srun

open Machine

/-- An entry of `/proc/mounts`, as far as `mount_tmpfs` looks at it. -/
abbrev Mnt := MountEntry String String

/-- What `mount_tmpfs` mounts. -/
def tmpfsEntry : Mnt := ⟨tmpfs, "tmpfs"⟩

/-- The registry's directory and those above it. A file system that somebody mounts on one of
the latter hides the former with all that is mounted there. -/
def tmpfsDirs : List String := [tmpfs, "/var/cache", "/var", "/"]

/-- Program points of `main`. -/
inductive SrundPc
  | daemonize
  | writePid
  /-- `mount_tmpfs` -/
  | isDirectory
  | createDirectories
  | setmntent
  /-- The loop of `mount_tmpfs`, with the entries still to be read. -/
  | getmntent (entries : List Mnt)
  | mount
  | openLock
  | config
  | socket
  | unlinkSock
  | bind
  | chmod
  | listen
  /-- The accept loop. -/
  | serve (d : Daemon)
  /-- `clear_resource`, before `main` returns `result`. -/
  | umount (result : Int)
  | closeLock (result : Int)
  | unlinkLock (result : Int)
  /-- `clear_cgroup_setting` -/
  | cgroup (result : Int)
  /-- Its loop, with the leaves that it has seen. -/
  | leaves (seen : List Int) (result : Int)
  | rmdir (pid : Int) (seen : List Int) (result : Int)
  | returned (result : Int)
  deriving DecidableEq

/-- The daemon process. -/
structure Srund where
  pid : Int
  lockfd : Int := -1
  /-- `daemon_signal_register` has been called. -/
  handler : Bool := false
  processStop : Bool := false
  pc : SrundPc := .daemonize
  deriving DecidableEq

/-- A call of `main` with its result. -/
inductive SrundLabel
  | daemonize (ok : Bool)
  /-- `write_file(pidfile, …)`; `none` when the file cannot be opened. -/
  | writePid (data : Bytes) (r : Option FileWrite)
  /-- SIGTERM, once its handler has been set. -/
  | sigterm (pid : Int)
  /-- `is_directory(tmpfs)`; `none` when it throws. -/
  | isDirectory (r : Option Bool)
  | createDirectories (ok : Bool)
  /-- The entries that will be read, when `/proc/mounts` can be opened. -/
  | setmntent (r : Option (List Mnt))
  | getmntent
  | mount (ok : Bool)
  | openLock (fd : Int)
  | config (ok : Bool)
  | socket (ok : Bool)
  | unlinkSock (ok : Bool)
  | bind (ok : Bool)
  | chmod (ok : Bool)
  | listen (ok : Bool)
  | serve (l : DaemonLabel)
  | umount (ok : Bool)
  | closeLock (fd : Int)
  | unlinkLock (ok : Bool)
  /-- `is_directory(CGMemoryRoot)`. -/
  | cgroup (r : Option Bool)
  | leaf (r : DirResult)
  | rmdir (pid : Int) (ok : Bool)

namespace SrundPc

/-- The daemon is at its end: `clear_resource`, and after it. -/
def result : SrundPc → Option Int
  | umount r | closeLock r | unlinkLock r | cgroup r | leaves _ r | rmdir _ _ r | returned r =>
    some r
  | _ => none

/-- The accept loop. -/
def looping : SrundPc → Bool
  | serve _ => true
  | _ => false

/-- `main` outside its loop, which takes its signals itself. -/
def outside : SrundPc → Bool
  | serve _ | returned _ => false
  | _ => true

end SrundPc

namespace Srund

def goto (s : Srund) (pc : SrundPc) : Srund := { s with pc := pc }

/-- The handler of `main`: `clear_resource`, and -1. -/
def throw (s : Srund) : Srund := s.goto (.umount (-1))

/-- Throw unless the call has succeeded. -/
def proceed (s : Srund) (ok : Bool) (pc : SrundPc) : Srund := if ok then s.goto pc else s.throw

/-- The accept loop, and where it leads to. -/
def serving (s : Srund) (d : Daemon) : Srund :=
  match d.pc with
  | .clear result => s.goto (.umount result)
  | _ => s.goto (.serve d)

/-- `main`. -/
def step (s : Srund) (l : SrundLabel) : Option Srund :=
  match s.pc, l with
  | .daemonize, .daemonize ok => some (s.proceed ok .writePid)
  | .writePid, .writePid data r =>
    if data = Proto3.text (toString s.pid) then
      let ok := r.any FileWrite.returned
      some ({ s with handler := ok }.proceed ok .isDirectory)
    else none
  | .isDirectory, .isDirectory none => some s.throw
  | .isDirectory, .isDirectory (some b) =>
    some (s.goto (if b then .setmntent else .createDirectories))
  | .createDirectories, .createDirectories ok => some (s.proceed ok .mount)
  | .setmntent, .setmntent none => some s.throw
  | .setmntent, .setmntent (some entries) => some (s.goto (.getmntent entries))
  | .getmntent [], .getmntent => some (s.goto .mount)
  | .getmntent (e :: entries), .getmntent =>
    -- the first entry for the directory decides
    if e.dir = tmpfs then some (s.proceed (e.type = "tmpfs") .openLock)
    else some (s.goto (.getmntent entries))
  | .mount, .mount ok => some (s.proceed ok .openLock)
  | .openLock, .openLock fd => some ({ s with lockfd := fd }.proceed (fd ≠ -1) .config)
  | .config, .config ok => some (s.proceed ok .socket)
  | .socket, .socket ok => some (s.proceed ok .unlinkSock)
  -- what `unlink` returns is not looked at
  | .unlinkSock, .unlinkSock _ => some (s.goto .bind)
  | .bind, .bind ok => some (s.proceed ok .chmod)
  | .chmod, .chmod ok => some (s.proceed ok .listen)
  | .listen, .listen ok => some (s.proceed ok (.serve { processStop := s.processStop }))
  | .serve d, .serve l => (d.step l).map s.serving
  | .umount r, .umount _ => some (s.goto (.closeLock r))
  -- `close(-1)` when the lock file has not been opened
  | .closeLock r, .closeLock fd => if fd = s.lockfd then some (s.goto (.unlinkLock r)) else none
  | .unlinkLock r, .unlinkLock _ => some (s.goto (.cgroup r))
  -- an exception ends `clear_cgroup_setting` only
  | .cgroup r, .cgroup (some true) => some (s.goto (.leaves [] r))
  | .cgroup r, .cgroup _ => some (s.goto (.returned r))
  | .leaves seen r, .leaf (.entry pid) => some (s.goto (.rmdir pid seen r))
  | .leaves _ r, .leaf _ => some (s.goto (.returned r))
  | .rmdir pid seen r, .rmdir p _ =>
    if p = pid then some (s.goto (.leaves (pid :: seen) r)) else none
  | pc, .sigterm pid =>
    -- without the handler the process would be killed
    if s.handler && pc.outside then
      some { s with processStop := s.processStop || pid = 1 }
    else none
  | _, _ => none

/-- The steps of `main`, by name. -/
inductive Step (s : Srund) : SrundLabel → Srund → Prop
  | daemonize (ok : Bool) (hpc : s.pc = .daemonize) :
      Step s (.daemonize ok) (s.proceed ok .writePid)
  | writePid (r : Option FileWrite) (hpc : s.pc = .writePid) :
      Step s (.writePid (Proto3.text (toString s.pid)) r)
        ({ s with handler := r.any FileWrite.returned }.proceed (r.any FileWrite.returned)
          .isDirectory)
  | sigterm (pid : Int) (hpc : s.pc.outside = true) :
      Step s (.sigterm pid) { s with processStop := s.processStop || pid = 1 }
  | isDirectoryFail (hpc : s.pc = .isDirectory) : Step s (.isDirectory none) s.throw
  | isDirectory (hpc : s.pc = .isDirectory) : Step s (.isDirectory (some true)) (s.goto .setmntent)
  | noDirectory (hpc : s.pc = .isDirectory) :
      Step s (.isDirectory (some false)) (s.goto .createDirectories)
  | createDirectories (ok : Bool) (hpc : s.pc = .createDirectories) :
      Step s (.createDirectories ok) (s.proceed ok .mount)
  | setmntentFail (hpc : s.pc = .setmntent) : Step s (.setmntent none) s.throw
  | setmntent (entries : List Mnt) (hpc : s.pc = .setmntent) :
      Step s (.setmntent (some entries)) (s.goto (.getmntent entries))
  | getmntentEnd (hpc : s.pc = .getmntent []) : Step s .getmntent (s.goto .mount)
  | getmntentHit {e : Mnt} {entries : List Mnt} (hpc : s.pc = .getmntent (e :: entries))
      (hdir : e.dir = tmpfs) : Step s .getmntent (s.proceed (e.type = "tmpfs") .openLock)
  | getmntentNext {e : Mnt} {entries : List Mnt} (hpc : s.pc = .getmntent (e :: entries))
      (hdir : e.dir ≠ tmpfs) : Step s .getmntent (s.goto (.getmntent entries))
  | mount (ok : Bool) (hpc : s.pc = .mount) : Step s (.mount ok) (s.proceed ok .openLock)
  | openLock (fd : Int) (hpc : s.pc = .openLock) :
      Step s (.openLock fd) ({ s with lockfd := fd }.proceed (fd ≠ -1) .config)
  | config (ok : Bool) (hpc : s.pc = .config) : Step s (.config ok) (s.proceed ok .socket)
  | socket (ok : Bool) (hpc : s.pc = .socket) : Step s (.socket ok) (s.proceed ok .unlinkSock)
  | unlinkSock (ok : Bool) (hpc : s.pc = .unlinkSock) : Step s (.unlinkSock ok) (s.goto .bind)
  | bind (ok : Bool) (hpc : s.pc = .bind) : Step s (.bind ok) (s.proceed ok .chmod)
  | chmod (ok : Bool) (hpc : s.pc = .chmod) : Step s (.chmod ok) (s.proceed ok .listen)
  | listen (ok : Bool) (hpc : s.pc = .listen) :
      Step s (.listen ok) (s.proceed ok (.serve { processStop := s.processStop }))
  | serve {d d' : Daemon} {l : DaemonLabel} (hpc : s.pc = .serve d) (hd : Daemon.Step d l d') :
      Step s (.serve l) (s.serving d')
  | umount {r : Int} (ok : Bool) (hpc : s.pc = .umount r) :
      Step s (.umount ok) (s.goto (.closeLock r))
  | closeLock {r : Int} (hpc : s.pc = .closeLock r) :
      Step s (.closeLock s.lockfd) (s.goto (.unlinkLock r))
  | unlinkLock {r : Int} (ok : Bool) (hpc : s.pc = .unlinkLock r) :
      Step s (.unlinkLock ok) (s.goto (.cgroup r))
  | cgroup {r : Int} (hpc : s.pc = .cgroup r) : Step s (.cgroup (some true)) (s.goto (.leaves [] r))
  | noCgroup {r : Int} {b : Option Bool} (hpc : s.pc = .cgroup r) (hb : b ≠ some true) :
      Step s (.cgroup b) (s.goto (.returned r))
  | leaf {seen : List Int} {r : Int} (pid : Int) (hpc : s.pc = .leaves seen r) :
      Step s (.leaf (.entry pid)) (s.goto (.rmdir pid seen r))
  | leavesEnd {seen : List Int} {r : Int} {e : DirResult} (hpc : s.pc = .leaves seen r)
      (he : ∀ pid, e ≠ .entry pid) : Step s (.leaf e) (s.goto (.returned r))
  | rmdir {pid : Int} {seen : List Int} {r : Int} (ok : Bool) (hpc : s.pc = .rmdir pid seen r) :
      Step s (.rmdir pid ok) (s.goto (.leaves (pid :: seen) r))

/-- The list is complete. -/
theorem step_cases {s s' : Srund} {l : SrundLabel} (h : s.step l = some s') : Step s l s' := by
  unfold step at h
  split at h
  case h_1 hpc => cases h; exact .daemonize _ hpc
  case h_2 hpc =>
    split at h
    · next heq => cases h; subst heq; exact .writePid _ hpc
    · cases h
  case h_3 hpc => cases h; exact .isDirectoryFail hpc
  case h_4 b hpc =>
    cases b <;> cases h
    · exact .noDirectory hpc
    · exact .isDirectory hpc
  case h_5 hpc => cases h; exact .createDirectories _ hpc
  case h_6 hpc => cases h; exact .setmntentFail hpc
  case h_7 hpc => cases h; exact .setmntent _ hpc
  case h_8 hpc => cases h; exact .getmntentEnd hpc
  case h_9 hpc =>
    split at h
    · next hdir => cases h; exact .getmntentHit hpc hdir
    · next hdir => cases h; exact .getmntentNext hpc hdir
  case h_10 hpc => cases h; exact .mount _ hpc
  case h_11 hpc => cases h; exact .openLock _ hpc
  case h_12 hpc => cases h; exact .config _ hpc
  case h_13 hpc => cases h; exact .socket _ hpc
  case h_14 hpc => cases h; exact .unlinkSock _ hpc
  case h_15 hpc => cases h; exact .bind _ hpc
  case h_16 hpc => cases h; exact .chmod _ hpc
  case h_17 hpc => cases h; exact .listen _ hpc
  case h_18 hpc =>
    obtain ⟨d', hd, rfl⟩ := Option.map_eq_some_iff.mp h
    exact .serve hpc (Daemon.step_cases hd)
  case h_19 hpc => cases h; exact .umount _ hpc
  case h_20 hpc =>
    split at h
    · next heq => cases h; subst heq; exact .closeLock hpc
    · cases h
  case h_21 hpc => cases h; exact .unlinkLock _ hpc
  case h_22 hpc => cases h; exact .cgroup hpc
  case h_23 b hno hpc => cases h; exact .noCgroup hpc fun hb => hno hb
  case h_24 hpc => cases h; exact .leaf _ hpc
  case h_25 e hno hpc => cases h; exact .leavesEnd hpc fun pid he => hno pid he
  case h_26 hpc =>
    split at h
    · next heq => cases h; subst heq; exact .rmdir _ hpc
    · cases h
  case h_27 =>
    split at h
    · next hguard => cases h; exact .sigterm _ (by simp_all)
    · cases h
  case h_28 => cases h

end Srund

/-- What a daemon leaves behind when it is killed. -/
structure Resources where
  mounts : MountTable String String := []
  /-- `tmpfs` is a directory. -/
  mountpoint : Bool := false
  pidfile : Option Bytes := none
  lockfile : Bool := false
  /-- The path of the socket is taken. -/
  sockfile : Bool := false
  /-- `CGMemoryRoot` is a directory. -/
  cgroup : Bool := false
  /-- The leaves below it, and whether a process is in them. -/
  leaves : List (Int × Bool) := []
  deriving DecidableEq

/-- A machine on which a daemon may run. -/
structure Host where
  res : Resources
  srund : Option Srund := none
  deriving DecidableEq

/-- What can happen on it. -/
inductive HostEvent
  /-- A daemon is started. -/
  | start (pid : Int)
  | srund (l : SrundLabel)
  /-- The daemon is killed. -/
  | kill
  /-- Commands are started and end. -/
  | leaves (ls : List (Int × Bool))
  /-- Somebody else mounts or unmounts a file system that does not hide the registry. -/
  | mount (e : Mnt)
  | umount (dir : String)

namespace Resources

/-- What the resources allow a call to return; a failure is always possible. -/
def admits (r : Resources) (pc : SrundPc) : SrundLabel → Bool
  | .isDirectory (some b) => b = r.mountpoint
  | .setmntent (some entries) => entries = r.mounts
  -- ENOENT when there is no such file
  | .unlinkSock true => r.sockfile
  | .unlinkLock true => r.lockfile
  -- EADDRINUSE
  | .bind true => !r.sockfile
  -- EINVAL when nothing is mounted there
  | .umount true => (r.mounts.mountedAt tmpfs) ≠ []
  | .cgroup (some b) => b = r.cgroup
  -- every leaf that is there is seen once
  | .leaf (.entry pid) =>
    match pc with
    | .leaves seen _ => pid ∉ seen && pid ∈ r.leaves.map Prod.fst
    | _ => true
  | .leaf .done =>
    match pc with
    | .leaves seen _ => (r.leaves.map Prod.fst).all (· ∈ seen)
    | _ => true
  -- a leaf with a process in it stays
  | .rmdir pid ok => ok = decide ((pid, false) ∈ r.leaves)
  | _ => true

/-- The resources after a call. -/
def after (r : Resources) : SrundLabel → Resources
  | .writePid data (some .complete) => { r with pidfile := some data }
  | .writePid _ (some (.silent kept)) | .writePid _ (some (.failed kept)) =>
    { r with pidfile := some kept }
  | .createDirectories true => { r with mountpoint := true }
  | .mount true => { r with mounts := r.mounts.mount tmpfsEntry }
  | .openLock fd => if fd = -1 then r else { r with lockfile := true }
  | .unlinkSock true => { r with sockfile := false }
  | .bind true => { r with sockfile := true }
  | .umount true => { r with mounts := r.mounts.umount tmpfs }
  | .unlinkLock true => { r with lockfile := false }
  | .rmdir pid true => { r with leaves := r.leaves.filter (·.1 ≠ pid) }
  | _ => r

end Resources

namespace Host

/-- One step. -/
def step (h : Host) : HostEvent → Option Host
  | .start pid =>
    -- the last daemon has returned, or has been killed
    if h.srund.all (·.pc matches .returned _) then some { h with srund := some { pid := pid } }
    else none
  | .srund l =>
    h.srund.bind fun s =>
      if h.res.admits s.pc l then
        (s.step l).map fun s' => { res := h.res.after l, srund := some s' }
      else none
  | .kill => some { h with srund := none }
  | .leaves ls => some { h with res.leaves := ls }
  | .mount e =>
    if e.dir ∈ tmpfsDirs then none else some { h with res.mounts := h.res.mounts.mount e }
  | .umount dir =>
    if dir ∈ tmpfsDirs then none else some { h with res.mounts := h.res.mounts.umount dir }

/-- The steps of a host, by name. -/
inductive Step (h : Host) : HostEvent → Host → Prop
  | start (pid : Int) : Step h (.start pid) { h with srund := some { pid := pid } }
  | srund {s s' : Srund} {l : SrundLabel} (hs : h.srund = some s)
      (hadm : h.res.admits s.pc l = true) (hstep : Srund.Step s l s') :
      Step h (.srund l) { res := h.res.after l, srund := some s' }
  | kill : Step h .kill { h with srund := none }
  | leaves (ls : List (Int × Bool)) : Step h (.leaves ls) { h with res.leaves := ls }
  | mount (e : Mnt) (hdir : e.dir ≠ tmpfs) :
      Step h (.mount e) { h with res.mounts := h.res.mounts.mount e }
  | umount (dir : String) (hdir : dir ≠ tmpfs) :
      Step h (.umount dir) { h with res.mounts := h.res.mounts.umount dir }

variable {h h' : Host} {ev : HostEvent}

theorem step_cases (hexec : h.step ev = some h') : Step h ev h' := by
  cases ev with
  | start pid =>
    obtain ⟨-, heq⟩ := Option.ite_none_right_eq_some.mp hexec
    obtain rfl := Option.some.inj heq
    exact .start pid
  | srund l =>
    obtain ⟨s, hs, hexec⟩ := Option.bind_eq_some_iff.mp hexec
    split at hexec
    · next hadm =>
      obtain ⟨s', hs', rfl⟩ := Option.map_eq_some_iff.mp hexec
      exact .srund hs hadm (Srund.step_cases hs')
    · cases hexec
  | kill => cases hexec; exact .kill
  | leaves ls => cases hexec; exact .leaves ls
  | mount e =>
    simp only [Host.step] at hexec
    split at hexec
    · cases hexec
    · next hdir => cases hexec; exact .mount e fun heq => hdir (heq ▸ List.mem_cons_self)
  | umount dir =>
    simp only [Host.step] at hexec
    split at hexec
    · cases hexec
    · next hdir => cases hexec; exact .umount dir fun heq => hdir (heq ▸ List.mem_cons_self)

end Host

/-! ### The registry is mounted once -/

/-- What is mounted on the registry's directory. -/
def Resources.registry (r : Resources) : MountTable String String := r.mounts.mountedAt tmpfs

/-- Nothing is mounted on the registry's directory, or the registry is. -/
def Resources.Clean (r : Resources) : Prop :=
  r.registry = [] ∨ r.registry = [tmpfsEntry] ∧ r.mountpoint = true

/-- The file system on a clean directory is the only one there. -/
theorem Resources.Clean.registry_umount {r : Resources} (h : r.Clean) :
    (r.after (.umount true)).registry = [] := by
  rw [Resources.registry, Resources.after, MountTable.mountedAt_umount_self]
  rcases h with hno | ⟨hone, -⟩
  · rw [show MountTable.mountedAt r.mounts tmpfs = [] from hno]
    rfl
  · rw [show MountTable.mountedAt r.mounts tmpfs = [tmpfsEntry] from hone]
    rfl

/-- On a directory on which nothing is mounted, the registry is the only one afterwards. -/
theorem Resources.registry_mount {r : Resources} (h : r.registry = []) :
    (r.after (.mount true)).registry = [tmpfsEntry] := by
  have hself := MountTable.mountedAt_mount_self r.mounts tmpfsEntry
  rw [show MountTable.mountedAt r.mounts tmpfsEntry.dir = [] from h] at hself
  exact hself

/-- What a daemon has found out, at the points where it relies on it. -/
def Srund.Knows (s : Srund) (r : Resources) : Prop :=
  match s.pc with
  | .createDirectories => r.mountpoint = false
  | .setmntent => r.mountpoint = true
  -- what has been read so far has been something else
  | .getmntent entries => r.mountpoint = true ∧ MountTable.mountedAt entries tmpfs = r.registry
  | .mount => r.mountpoint = true ∧ r.registry = []
  -- the loop has not been left
  | .serve d => ∀ result, d.pc ≠ .clear result
  | _ => True

namespace Srund

variable {s s' : Srund} {r r' : Resources} {l : SrundLabel}

theorem Knows.congr (h : s.Knows r) (hregistry : r'.registry = r.registry)
    (hmountpoint : r'.mountpoint = r.mountpoint) : s.Knows r' := by
  unfold Knows at h ⊢
  rw [hregistry, hmountpoint]
  exact h

/-- A daemon that has thrown relies on nothing. -/
theorem knows_throw (s : Srund) (r : Resources) : s.throw.Knows r := trivial

theorem knows_proceed (s : Srund) (r : Resources) (ok : Bool) {pc : SrundPc}
    (h : ok = true → (s.goto pc).Knows r) : (s.proceed ok pc).Knows r := by
  cases ok with
  | false => exact knows_throw s r
  | true => exact h rfl

/-- A daemon that leaves its loop goes on behind it. -/
theorem knows_serving (s : Srund) (d : Daemon) (r : Resources) : (s.serving d).Knows r := by
  unfold serving
  split
  · exact trivial
  · next hno => exact hno

/-- **One call.** The registry is mounted at most once, and what the daemon knows stays true. -/
theorem Knows.step (h : s.Knows r) (hclean : r.Clean) (hadm : r.admits s.pc l = true)
    (hstep : Srund.Step s l s') : (r.after l).Clean ∧ s'.Knows (r.after l) := by
  cases hstep with
  | writePid res =>
    -- at most the pid file changes
    rcases res with - | res
    · exact ⟨hclean, knows_proceed _ _ _ fun _ => trivial⟩
    · cases res <;> exact ⟨hclean, knows_proceed _ _ _ fun _ => trivial⟩
  | sigterm => exact ⟨hclean, h⟩
  | isDirectory hpc =>
    have hdir : true = r.mountpoint := of_decide_eq_true hadm
    exact ⟨hclean, hdir.symm⟩
  | noDirectory hpc =>
    have hdir : false = r.mountpoint := of_decide_eq_true hadm
    exact ⟨hclean, hdir.symm⟩
  | createDirectories ok hpc =>
    cases ok with
    | false => exact ⟨hclean, knows_throw _ _⟩
    | true =>
      -- without the directory nothing was mounted on it
      rw [Knows, hpc] at h
      have hnone : r.registry = [] := hclean.resolve_right fun hno => by
        rw [hno.2] at h
        cases h
      exact ⟨Or.inl hnone, rfl, hnone⟩
  | setmntent entries hpc =>
    rw [Knows, hpc] at h
    obtain rfl : entries = r.mounts := of_decide_eq_true hadm
    exact ⟨hclean, h, rfl⟩
  | getmntentEnd hpc =>
    rw [Knows, hpc] at h
    exact ⟨hclean, h.1, h.2.symm⟩
  | getmntentHit hpc hdir => exact ⟨hclean, knows_proceed _ _ _ fun _ => trivial⟩
  | getmntentNext hpc hdir =>
    rw [Knows, hpc] at h
    refine ⟨hclean, h.1, Eq.trans ?_ h.2⟩
    rw [MountTable.mountedAt, MountTable.mountedAt, List.filter_cons_of_neg (by simpa using hdir)]
  | mount ok hpc =>
    cases ok with
    | false => exact ⟨hclean, knows_throw _ _⟩
    | true =>
      rw [Knows, hpc] at h
      exact ⟨Or.inr ⟨Resources.registry_mount h.2, h.1⟩, trivial⟩
  | openLock fd hpc =>
    refine ⟨?_, knows_proceed _ _ _ fun _ => trivial⟩
    simp only [Resources.after]
    split <;> exact hclean
  | unlinkSock ok | unlinkLock ok => cases ok <;> exact ⟨hclean, trivial⟩
  | bind ok hpc =>
    cases ok with
    | false => exact ⟨hclean, knows_throw _ _⟩
    | true => exact ⟨hclean, trivial⟩
  | serve hpc hd => exact ⟨hclean, knows_serving _ _ _⟩
  | umount ok hpc =>
    cases ok with
    | false => exact ⟨hclean, trivial⟩
    | true => exact ⟨Or.inl hclean.registry_umount, trivial⟩
  | rmdir ok hpc => cases ok <;> exact ⟨hclean, trivial⟩
  | listen ok hpc => exact ⟨hclean, knows_proceed _ _ _ fun _ _ hno => by cases hno⟩
  | daemonize | config | socket | chmod =>
    exact ⟨hclean, knows_proceed _ _ _ fun _ => trivial⟩
  | _ => exact ⟨hclean, trivial⟩

end Srund

namespace Host

variable {h h' : Host} {ev : HostEvent}

/-- The registry is mounted at most once, and the daemon knows where it is. -/
structure Sound (h : Host) : Prop where
  clean : h.res.Clean
  knows : ∀ s ∈ h.srund, s.Knows h.res

theorem Sound.step (hs : Sound h) (hstep : Step h ev h') : Sound h' := by
  cases hstep with
  | start pid => exact ⟨hs.clean, fun s hmem => by cases hmem; trivial⟩
  | @srund s s' l hsome hadm hstep =>
    obtain ⟨hclean, hknows⟩ := (hs.knows s hsome).step hs.clean hadm hstep
    exact ⟨hclean, fun t ht => by cases ht; exact hknows⟩
  | kill => exact ⟨hs.clean, fun s hmem => by cases hmem⟩
  | leaves ls => exact ⟨hs.clean, fun s hmem => (hs.knows s hmem).congr rfl rfl⟩
  | mount e hdir =>
    have hsame := MountTable.mountedAt_mount_of_ne h.res.mounts e hdir
    refine ⟨?_, fun s hmem => (hs.knows s hmem).congr hsame rfl⟩
    unfold Resources.Clean Resources.registry
    rw [hsame]
    exact hs.clean
  | umount dir hdir =>
    have hsame := MountTable.mountedAt_umount_of_ne h.res.mounts hdir
    refine ⟨?_, fun s hmem => (hs.knows s hmem).congr hsame rfl⟩
    unfold Resources.Clean Resources.registry
    rw [hsame]
    exact hs.clean

/-- No call fails without a reason that lies in the resources: `unlink` may fail on a socket
that is not there, and `bind` on a path that is taken. -/
def fair (h : Host) : HostEvent → Bool
  | .srund (.daemonize ok) | .srund (.createDirectories ok) | .srund (.mount ok)
  | .srund (.config ok) | .srund (.socket ok) | .srund (.chmod ok) | .srund (.listen ok) => ok
  | .srund (.writePid _ r) => r.any FileWrite.returned
  | .srund (.isDirectory r) => r.isSome
  | .srund (.setmntent r) => r.isSome
  | .srund (.openLock fd) => fd ≠ -1
  | .srund (.unlinkSock ok) => ok || !h.res.sockfile
  | .srund (.bind ok) => ok || h.res.sockfile
  | .srund (.serve (.accept4 .failed)) => false
  | .srund (.serve (.fork pid)) => pid ≠ -1
  | _ => true

/-- The daemon has not failed. -/
def Healthy (h : Host) : Prop := ∀ s ∈ h.srund, s.pc.result ≠ some (-1)

/-- Before `bind` the path of the socket is free. -/
def Freed (h : Host) : Prop := ∀ s ∈ h.srund, s.pc = .bind → h.res.sockfile = false

end Host

namespace Srund

variable {s s' : Srund} {r : Resources} {l : SrundLabel}

theorem result_proceed (s : Srund) {ok : Bool} {pc : SrundPc} (hok : ok = true)
    (hpc : pc.result = none) : (s.proceed ok pc).pc.result ≠ some (-1) := by
  rw [hok]
  change pc.result ≠ _
  rw [hpc]
  exact fun h => by cases h

/-- The accept loop fails only with one of its calls. -/
theorem result_serving {d d' : Daemon} {l : DaemonLabel} (hd : Daemon.Step d l d')
    (hl : l ≠ .accept4 .failed) (hfork : l ≠ .fork (-1)) (hclear : ∀ r, d.pc ≠ .clear r) :
    (s.serving d').pc.result ≠ some (-1) := by
  have hcases : d'.pc = .clear 0 ∨ ∀ r, d'.pc ≠ .clear r := by
    cases hd with
    | sigterm | sigchld => exact Or.inr hclear
    | failed => exact absurd rfl hl
    | forkFailed => exact absurd rfl hfork
    | stop => exact Or.inl rfl
    | cleared hpc => exact absurd hpc (hclear _)
    | _ => exact Or.inr fun r hno => by cases hno
  unfold Srund.serving
  rcases hcases with h0 | hno
  · rw [h0]
    exact fun h => by cases h
  · split
    · next r hr => exact absurd hr (hno r)
    · exact fun h => by cases h

theorem proceed_ne_bind (s : Srund) (ok : Bool) {pc : SrundPc} (h : pc ≠ .bind) :
    (s.proceed ok pc).pc ≠ .bind := by
  cases ok with
  | false => exact fun hno => by cases hno
  | true => exact h

/-- `bind` is reached from `unlink` only. A fair one fails when there is nothing to remove. -/
theorem freed_step (h : s.pc = .bind → r.sockfile = false)
    (hfair : Host.fair { res := r, srund := some s } (.srund l) = true) (hstep : Step s l s') :
    s'.pc = .bind → (r.after l).sockfile = false := by
  cases hstep with
  | unlinkSock ok hpc =>
    intro _
    cases ok with
    | true => rfl
    | false => exact Bool.not_eq_true' _ ▸ hfair
  | sigterm pid hpc => exact h
  | serve hpc hd =>
    intro hno
    unfold Srund.serving at hno
    split at hno <;> cases hno
  | daemonize | writePid | createDirectories | getmntentHit | mount | openLock | config | socket
  | bind | chmod | listen =>
    exact fun hno => absurd hno (proceed_ne_bind _ _ fun heq => by cases heq)
  | _ => exact fun hno => by cases hno

/-- **One fair call.** A daemon that has not failed does not fail: the entry of the registry
passes the check, and the path of the socket has been freed before `bind`. -/
theorem result_step (hknows : s.Knows r) (hclean : r.Clean)
    (hfreed : s.pc = .bind → r.sockfile = false) (hs : s.pc.result ≠ some (-1))
    (hfair : Host.fair { res := r, srund := some s } (.srund l) = true) (hstep : Step s l s') :
    s'.pc.result ≠ some (-1) := by
  cases hstep with
  | daemonize ok hpc | createDirectories ok hpc | mount ok hpc | config ok hpc | socket ok hpc
  | chmod ok hpc | listen ok hpc => exact result_proceed _ hfair rfl
  | writePid res hpc => exact result_proceed _ hfair rfl
  | sigterm pid hloop => exact hs
  | isDirectoryFail hpc | setmntentFail hpc => cases hfair
  | getmntentHit hpc hdir =>
    rw [Knows, hpc] at hknows
    obtain ⟨-, hentries⟩ := hknows
    rw [MountTable.mountedAt, List.filter_cons_of_pos (by simpa using hdir)] at hentries
    refine result_proceed _ ?_ rfl
    rcases hclean with hno | ⟨hone, -⟩
    · rw [hno] at hentries
      cases hentries
    · rw [hone] at hentries
      rw [(List.cons.inj hentries).1]
      rfl
  | openLock fd hpc => exact result_proceed _ hfair rfl
  | bind ok hpc =>
    rw [Host.fair, hfreed hpc, Bool.or_false] at hfair
    exact result_proceed _ hfair rfl
  | serve hpc hd =>
    rw [Knows, hpc] at hknows
    refine result_serving hd ?_ ?_ hknows
    · rintro rfl
      cases hfair
    · rintro rfl
      cases hfair
  | umount _ hpc | closeLock hpc | unlinkLock _ hpc | cgroup hpc | noCgroup hpc | leaf _ hpc
  | leavesEnd hpc | rmdir _ hpc =>
    rw [hpc] at hs
    exact hs
  | _ => exact fun h => by cases h

end Srund

namespace Host

variable {h h' : Host} {ev : HostEvent}

theorem Freed.step (hf : Freed h) (hfair : h.fair ev = true) (hstep : Step h ev h') :
    Freed h' := by
  cases hstep with
  | start pid => exact fun s hmem => by cases hmem; exact fun hno => by cases hno
  | @srund s s' l hsome hadm hstep =>
    intro t ht
    cases ht
    refine Srund.freed_step (hf s hsome) ?_ hstep
    rw [← hsome]
    exact hfair
  | kill => exact fun s hmem => by cases hmem
  | leaves | mount | umount => exact hf

theorem Healthy.step (hs : Sound h) (hf : Freed h) (hh : Healthy h) (hfair : h.fair ev = true)
    (hstep : Step h ev h') : Healthy h' := by
  cases hstep with
  | start pid => exact fun s hmem => by cases hmem; exact fun h => by cases h
  | @srund s s' l hsome hadm hstep =>
    intro t ht
    cases ht
    refine Srund.result_step (hs.knows s hsome) hs.clean (hf s hsome) (hh s hsome) ?_ hstep
    rw [← hsome]
    exact hfair
  | kill => exact fun s hmem => by cases hmem
  | leaves | mount | umount => exact hh

/-- The first daemon on a machine, up to its loop. -/
def firstRun (pid : Int) : List HostEvent :=
  .start pid :: [.daemonize true, .writePid (Proto3.text (toString pid)) (some .complete),
    .isDirectory (some false), .createDirectories true, .mount true, .openLock 3, .config true,
    .socket true, .unlinkSock false, .bind true, .chmod true, .listen true].map .srund

/-- A later one, which finds the registry mounted. -/
def laterRun (pid : Int) : List HostEvent :=
  .start pid :: [.daemonize true, .writePid (Proto3.text (toString pid)) (some .complete),
    .isDirectory (some true), .setmntent (some [tmpfsEntry]), .getmntent, .openLock 3,
    .config true, .socket true, .unlinkSock true, .bind true, .chmod true,
    .listen true].map .srund

/-- A daemon in its loop is told to stop, and has returned. -/
def stopRun : List HostEvent :=
  [.serve (.sigterm 1), .serve (.accept4 .eintr), .serve (.waitpid none), .serve .tau,
    .umount true, .closeLock 3, .unlinkLock true, .cgroup (some true), .leaf (.entry 21),
    .rmdir 21 true, .leaf (.entry 22), .rmdir 22 false, .leaf .done].map .srund

/-- A run without a failure leads from `h` to `h'`. -/
def Goes (h h' : Host) : Prop :=
  ∃ evs, exec Host.step h evs = some h' ∧ StepsMeet Host.step (fun h ev => h.fair ev) h evs

theorem Goes.refl (h : Host) : Goes h h := ⟨[], rfl, trivial⟩

theorem Goes.cons {h₁ : Host} (ev : HostEvent) (hstep : h.step ev = some h₁)
    (hfair : h.fair ev = true) (hgoes : Goes h₁ h') : Goes h h' := by
  obtain ⟨evs, hexec, hmeet⟩ := hgoes
  refine ⟨ev :: evs, exec_cons_eq_some.mpr ⟨h₁, hstep, hexec⟩, hfair, fun h₂ hh₂ => ?_⟩
  rw [← Option.some.inj (hstep.symm.trans hh₂)]
  exact hmeet

theorem Goes.trans {h₁ : Host} (h1 : Goes h h₁) (h2 : Goes h₁ h') : Goes h h' := by
  obtain ⟨evs, hexec, hmeet⟩ := h1
  induction evs generalizing h with
  | nil =>
    cases hexec
    exact h2
  | cons ev evs ih =>
    obtain ⟨h₂, hstep, hexec⟩ := exec_cons_eq_some.mp hexec
    exact .cons ev hstep hmeet.1 (ih hexec (hmeet.2 h₂ hstep))

/-- From the lock file to the accept loop; the socket of an earlier daemon is removed. -/
theorem goes_serve (res : Resources) (s : Srund) (hpc : s.pc = .openLock) :
    Goes ⟨res, some s⟩ ⟨{ res with lockfile := true, sockfile := true },
      some { s with lockfd := 3, pc := .serve { processStop := s.processStop } }⟩ := by
  obtain ⟨mounts, mountpoint, pidfile, lockfile, sockfile, cgroup, leaves⟩ := res
  obtain ⟨pid, lockfd, handler, processStop, pc⟩ := s
  cases hpc
  refine .cons (.srund (.openLock 3)) rfl rfl <| .cons (.srund (.config true)) rfl rfl <|
    .cons (.srund (.socket true)) rfl rfl ?_
  cases sockfile with
  | true =>
    exact .cons (.srund (.unlinkSock true)) rfl rfl <| .cons (.srund (.bind true)) rfl rfl <|
      .cons (.srund (.chmod true)) rfl rfl <| .cons (.srund (.listen true)) rfl rfl <| .refl _
  | false =>
    -- there is nothing to remove
    exact .cons (.srund (.unlinkSock false)) rfl rfl <| .cons (.srund (.bind true)) rfl rfl <|
      .cons (.srund (.chmod true)) rfl rfl <| .cons (.srund (.listen true)) rfl rfl <| .refl _

/-- The loop over `/proc/mounts` finds the registry, or comes to its end and mounts it. -/
theorem goes_mounted (res : Resources) (s : Srund) (entries : List Mnt)
    (hpc : s.pc = .getmntent entries) (hclean : res.Clean)
    (hentries : MountTable.mountedAt entries tmpfs = res.registry) :
    ∃ res' : Resources, res'.registry = [tmpfsEntry] ∧
      Goes ⟨res, some s⟩ ⟨res', some (s.goto .openLock)⟩ := by
  obtain ⟨pid, lockfd, handler, processStop, pc⟩ := s
  cases hpc
  induction entries with
  | nil =>
    exact ⟨res.after (.mount true), Resources.registry_mount hentries.symm,
      .cons (.srund .getmntent) rfl rfl <| .cons (.srund (.mount true)) rfl rfl <| .refl _⟩
  | cons e entries ih =>
    by_cases hdir : e.dir = tmpfs
    · -- the registry of an earlier daemon
      rw [MountTable.mountedAt, List.filter_cons_of_pos (by simpa using hdir)] at hentries
      have hone : res.registry = [tmpfsEntry] := by
        rcases hclean with hno | ⟨hone, -⟩
        · rw [hno] at hentries
          cases hentries
        · exact hone
      rw [hone] at hentries
      obtain rfl := (List.cons.inj hentries).1
      exact ⟨res, hone, .cons (.srund .getmntent) rfl rfl <| .refl _⟩
    · rw [MountTable.mountedAt, List.filter_cons_of_neg (by simpa using hdir)] at hentries
      obtain ⟨res', hone, hgoes⟩ := ih hentries
      refine ⟨res', hone, .cons (.srund .getmntent) ?_ rfl hgoes⟩
      simp [Host.step, Resources.admits, Srund.step, hdir, Srund.goto, Resources.after]

/-- From the check of the directory to the lock file. -/
theorem goes_registry (res : Resources) (s : Srund) (hpc : s.pc = .isDirectory)
    (hclean : res.Clean) :
    ∃ res' : Resources, res'.registry = [tmpfsEntry] ∧
      Goes ⟨res, some s⟩ ⟨res', some (s.goto .openLock)⟩ := by
  obtain ⟨mounts, mountpoint, pidfile, lockfile, sockfile, cgroup, leaves⟩ := res
  obtain ⟨pid, lockfd, handler, processStop, pc⟩ := s
  cases hpc
  cases mountpoint with
  | true =>
    obtain ⟨res', hone, hgoes⟩ := goes_mounted _
      { pid, lockfd, handler, processStop, pc := .getmntent mounts } mounts rfl hclean rfl
    refine ⟨res', hone, .cons (.srund (.isDirectory (some true))) rfl rfl <|
      .cons (.srund (.setmntent (some mounts))) ?_ rfl hgoes⟩
    simp [Host.step, Resources.admits, Srund.step, Srund.goto, Resources.after]
  | false =>
    have hnone := hclean.resolve_right fun hno => by cases hno.2
    have hone := Resources.registry_mount
      (show Resources.registry ⟨mounts, true, pidfile, lockfile, sockfile, cgroup, leaves⟩ = []
        from hnone)
    exact ⟨_, hone, .cons (.srund (.isDirectory (some false))) rfl rfl <|
      .cons (.srund (.createDirectories true)) rfl rfl <|
      .cons (.srund (.mount true)) rfl rfl <| .refl _⟩

/-- `clear_resource` gets through: the registry's file system is not busy, the lock file can be
removed and the directory of the leaves be read, and from its beginning on no command starts or
ends. -/
def orderly (h : Host) : HostEvent → Bool
  | .srund (.umount ok) => ok || h.res.registry = []
  | .srund (.unlinkLock ok) => ok || !h.res.lockfile
  | .srund (.cgroup b) => b.isSome
  | .srund (.leaf .error) => false
  | .leaves _ => h.srund.all (·.pc.result.isNone)
  | _ => true

end Host

/-- What a daemon in its loop has made and nothing removes. -/
structure Resources.Kept (r : Resources) : Prop where
  pidfile : r.pidfile.isSome = true
  mountpoint : r.mountpoint = true
  sockfile : r.sockfile = true

namespace Srund

variable {s s' : Srund} {r r' : Resources} {l : SrundLabel}

/-- What is there, or is not, at each point. -/
def Left (s : Srund) (r : Resources) : Prop :=
  match s.pc with
  | .daemonize | .writePid => True
  | .isDirectory | .createDirectories => r.pidfile.isSome = true
  | .setmntent | .getmntent _ | .mount | .openLock | .config | .socket | .unlinkSock | .bind =>
    r.pidfile.isSome = true ∧ r.mountpoint = true
  | .chmod | .listen | .serve _ => r.Kept
  -- only the loop is left with 0
  | .umount result => result = 0 → r.Kept
  | .closeLock result | .unlinkLock result => (result = 0 → r.Kept) ∧ r.registry = []
  | .cgroup result => (result = 0 → r.Kept) ∧ r.registry = [] ∧ r.lockfile = false
  | .leaves seen result | .rmdir _ seen result =>
    (result = 0 → r.Kept) ∧ r.registry = [] ∧ r.lockfile = false ∧
      ∀ x ∈ r.leaves, x.1 ∈ seen → x.2 = true
  | .returned result =>
    (result = 0 → r.Kept) ∧ r.registry = [] ∧ r.lockfile = false ∧
      (r.cgroup = true → ∀ x ∈ r.leaves, x.2 = true)

theorem left_throw (s : Srund) (r : Resources) : s.throw.Left r := fun h => by cases h

theorem left_proceed (s : Srund) (r : Resources) (ok : Bool) {pc : SrundPc}
    (h : ok = true → (s.goto pc).Left r) : (s.proceed ok pc).Left r := by
  cases ok with
  | false => exact left_throw s r
  | true => exact h rfl

theorem left_serving (s : Srund) (d : Daemon) (h : r.Kept) : (s.serving d).Left r := by
  unfold serving
  split
  · exact fun _ => h
  · exact h

/-- When `write_file` has returned, there is a pid file, if not with the pid in it. -/
theorem pidfile_after {data : Bytes} {res : Option FileWrite}
    (h : res.any FileWrite.returned = true) :
    (r.after (.writePid data res)).pidfile.isSome = true := by
  obtain ⟨w, rfl, hw⟩ := (Option.any_eq_true _ _).mp h
  cases w with
  | failed kept => cases hw
  | complete | silent kept => rfl

/-- A leaf that has been seen is gone, or a process is in it. -/
theorem seen_rmdir {leaves : List (Int × Bool)} {seen : List Int} {pid : Int} {ok : Bool}
    (h : ∀ x ∈ leaves, x.1 ∈ seen → x.2 = true) (hok : ok = decide ((pid, false) ∈ leaves)) :
    ∀ x ∈ if ok then leaves.filter (·.1 ≠ pid) else leaves, x.1 ∈ pid :: seen → x.2 = true := by
  intro x hx hseen
  cases ok with
  | true =>
    obtain ⟨hx, hne⟩ := List.mem_filter.mp hx
    exact h x hx ((List.mem_cons.mp hseen).resolve_left (by simpa using hne))
  | false =>
    have hno : (pid, false) ∉ leaves := of_decide_eq_false hok.symm
    rcases List.mem_cons.mp hseen with rfl | hseen
    · -- an empty one would have been removed
      cases hb : x.2 with
      | true => rfl
      | false => exact absurd (show (x.1, false) ∈ leaves by rw [← hb]; exact hx) hno
    · exact h x hx hseen

/-- **One orderly call.** -/
theorem Left.step (h : s.Left r) (hclean : r.Clean) (hadm : r.admits s.pc l = true)
    (horderly : Host.orderly { res := r, srund := some s } (.srund l) = true)
    (hstep : Step s l s') : s'.Left (r.after l) := by
  cases hstep with
  | daemonize => exact left_proceed _ _ _ fun _ => trivial
  | writePid res hpc => exact left_proceed _ _ _ fun hok => pidfile_after hok
  | sigterm pid hpc => exact h
  | isDirectoryFail | setmntentFail => exact left_throw _ _
  | isDirectory hpc =>
    rw [Left, hpc] at h
    have hdir : true = r.mountpoint := of_decide_eq_true hadm
    exact ⟨h, hdir.symm⟩
  | createDirectories ok hpc =>
    rw [Left, hpc] at h
    cases ok with
    | false => exact left_throw _ _
    | true => exact ⟨h, rfl⟩
  | noDirectory hpc | setmntent _ hpc | getmntentEnd hpc | getmntentNext hpc =>
    rw [Left, hpc] at h
    exact h
  | getmntentHit hpc hdir =>
    rw [Left, hpc] at h
    exact left_proceed _ _ _ fun _ => h
  | mount ok hpc | config ok hpc | socket ok hpc =>
    rw [Left, hpc] at h
    cases ok with
    | false => exact left_throw _ _
    | true => exact h
  | openLock fd hpc =>
    rw [Left, hpc] at h
    refine left_proceed _ _ _ fun _ => ?_
    simp only [Resources.after]
    split <;> exact h
  | unlinkSock ok hpc =>
    rw [Left, hpc] at h
    cases ok <;> exact h
  | bind ok hpc =>
    rw [Left, hpc] at h
    cases ok with
    | false => exact left_throw _ _
    | true => exact ⟨h.1, h.2, rfl⟩
  | chmod ok hpc | listen ok hpc =>
    rw [Left, hpc] at h
    exact left_proceed _ _ _ fun _ => h
  | serve hpc hd =>
    rw [Left, hpc] at h
    exact left_serving _ _ h
  | umount ok hpc =>
    rw [Left, hpc] at h
    cases ok with
    | false =>
      have hnone : r.registry = [] := of_decide_eq_true horderly
      exact ⟨h, hnone⟩
    | true => exact ⟨fun h0 => ⟨(h h0).1, (h h0).2, (h h0).3⟩, hclean.registry_umount⟩
  | closeLock hpc =>
    rw [Left, hpc] at h
    exact h
  | unlinkLock ok hpc =>
    rw [Left, hpc] at h
    cases ok with
    | false =>
      -- there was none
      have hnone : r.lockfile = false := Bool.not_eq_true' _ ▸ horderly
      exact ⟨h.1, h.2, hnone⟩
    | true => exact ⟨fun h0 => ⟨(h.1 h0).1, (h.1 h0).2, (h.1 h0).3⟩, h.2, rfl⟩
  | cgroup hpc =>
    rw [Left, hpc] at h
    exact ⟨h.1, h.2.1, h.2.2, fun x _ hno => absurd hno List.not_mem_nil⟩
  | @noCgroup _ b hpc hb =>
    rw [Left, hpc] at h
    refine ⟨h.1, h.2.1, h.2.2, fun hcgroup => ?_⟩
    obtain ⟨b, rfl⟩ := Option.isSome_iff_exists.mp horderly
    have heq : b = r.cgroup := of_decide_eq_true hadm
    rw [heq, show r.cgroup = true from hcgroup] at hb
    exact absurd rfl hb
  | leaf pid hpc =>
    rw [Left, hpc] at h
    exact h
  | @leavesEnd seen _ e hpc he =>
    rw [Left, hpc] at h
    rw [hpc] at hadm
    refine ⟨h.1, h.2.1, h.2.2.1, fun _ x hx => h.2.2.2 x hx ?_⟩
    cases e with
    | entry pid => exact absurd rfl (he pid)
    | error => cases horderly
    | done =>
      have hall := List.all_eq_true.mp hadm x.1 (List.mem_map_of_mem hx)
      exact of_decide_eq_true hall
  | @rmdir pid seen result ok hpc =>
    rw [Left, hpc] at h
    have hok : ok = decide ((pid, false) ∈ r.leaves) := of_decide_eq_true hadm
    have hseen := seen_rmdir h.2.2.2 hok
    cases ok with
    | false => exact ⟨h.1, h.2.1, h.2.2.1, hseen⟩
    | true => exact ⟨fun h0 => ⟨(h.1 h0).1, (h.1 h0).2, (h.1 h0).3⟩, h.2.1, h.2.2.1, hseen⟩

/-- What others do to the mounts elsewhere. -/
theorem Left.mounts {t : MountTable String String} (h : s.Left r)
    (hregistry : MountTable.mountedAt t tmpfs = r.registry) : s.Left { r with mounts := t } := by
  have hkept : Resources.Kept { r with mounts := t } ↔ r.Kept :=
    ⟨fun hk => ⟨hk.1, hk.2, hk.3⟩, fun hk => ⟨hk.1, hk.2, hk.3⟩⟩
  unfold Left at h ⊢
  rw [hkept, show Resources.registry { r with mounts := t } = r.registry from hregistry]
  exact h

/-- The leaves do not matter before the end. -/
theorem Left.leaves {ls : List (Int × Bool)} (h : s.Left r) (hresult : s.pc.result = none) :
    s.Left { r with leaves := ls } := by
  unfold Left at h ⊢
  cases hpc : s.pc with
  | umount | closeLock | unlinkLock | cgroup | leaves | rmdir | returned =>
    rw [hpc] at hresult
    cases hresult
  | chmod | listen | serve =>
    rw [hpc] at h
    exact ⟨h.1, h.2, h.3⟩
  | _ =>
    rw [hpc] at h
    exact h

end Srund

namespace Host

variable {h h' : Host} {ev : HostEvent}

theorem left_step (hs : Sound h) (hleft : ∀ s ∈ h.srund, s.Left h.res)
    (horderly : h.orderly ev = true) (hstep : Step h ev h') :
    ∀ s ∈ h'.srund, s.Left h'.res := by
  cases hstep with
  | start pid => exact fun s hmem => by cases hmem; trivial
  | @srund s s' l hsome hadm hstep =>
    intro t ht
    cases ht
    refine (hleft s hsome).step hs.clean hadm ?_ hstep
    rw [← hsome]
    exact horderly
  | kill => exact fun s hmem => by cases hmem
  | leaves ls =>
    intro s hmem
    have hnone : s.pc.result.isNone = true := by
      rw [orderly, Option.mem_def.mp hmem] at horderly
      exact horderly
    exact (hleft s hmem).leaves (Option.isNone_iff_eq_none.mp hnone)
  | mount e hdir =>
    exact fun s hmem => (hleft s hmem).mounts (MountTable.mountedAt_mount_of_ne _ _ hdir)
  | umount dir hdir =>
    exact fun s hmem => (hleft s hmem).mounts (MountTable.mountedAt_umount_of_ne _ hdir)

end Host

/-! ### A foreign file system on the registry's directory -/

/-- One life: the daemon is not killed and no other one is started. In `clear_resource` the
call of `umount` returns `umounts`: it fails when a process uses the file system. -/
def HostEvent.undisturbed (umounts : Bool) : HostEvent → Bool
  | .start _ | .kill => false
  | .srund (.umount ok) => ok == umounts
  | _ => true

namespace Srund

variable {s s' : Srund} {r r' : Resources} {l : SrundLabel} {found : MountTable String String}
  {umounts : Bool}

/-- The daemon has not got past the check of what it has `found` on the directory. -/
def Refused (umounts : Bool) (found : MountTable String String) (s : Srund) (r : Resources) :
    Prop :=
  match s.pc with
  | .daemonize | .writePid | .isDirectory | .setmntent =>
    r.mountpoint = true ∧ r.registry = found
  | .getmntent entries => r.registry = found ∧ MountTable.mountedAt entries tmpfs = found
  | .umount result => result = -1 ∧ r.registry = found
  | .closeLock result | .unlinkLock result | .cgroup result | .leaves _ result
  | .rmdir _ _ result | .returned result =>
    result = -1 ∧ r.registry = if umounts then found.dropLast else found
  | _ => False

theorem Refused.congr (h : s.Refused umounts found r) (hregistry : r'.registry = r.registry)
    (hmountpoint : r'.mountpoint = r.mountpoint) : s.Refused umounts found r' := by
  unfold Refused at h ⊢
  rw [hregistry, hmountpoint]
  exact h

/-- The path of the socket is touched behind the check only. -/
theorem Refused.sockfile (h : s.Refused umounts found r) (hstep : Step s l s') :
    (r.after l).sockfile = r.sockfile := by
  cases hstep with
  | writePid res =>
    rcases res with - | res
    · rfl
    · cases res <;> rfl
  | unlinkSock _ hpc | bind _ hpc =>
    rw [Refused, hpc] at h
    exact h.elim
  | createDirectories ok | mount ok | umount ok | unlinkLock ok | rmdir ok => cases ok <;> rfl
  | openLock fd =>
    simp only [Resources.after]
    split <;> rfl
  | _ => rfl

/-- **One call.** The first entry for the directory is a foreign one. -/
theorem Refused.step {e : Mnt} {rest : MountTable String String} (htype : e.type ≠ "tmpfs")
    (h : s.Refused umounts (e :: rest) r) (hadm : r.admits s.pc l = true)
    (hun : (HostEvent.srund l).undisturbed umounts = true) (hstep : Step s l s') :
    s'.Refused umounts (e :: rest) (r.after l) := by
  cases hstep with
  | daemonize ok hpc =>
    rw [Refused, hpc] at h
    cases ok with
    | false => exact ⟨rfl, h.2⟩
    | true => exact h
  | writePid res hpc =>
    rw [Refused, hpc] at h
    rcases res with - | res
    · exact ⟨rfl, h.2⟩
    · cases res with
      | failed kept => exact ⟨rfl, h.2⟩
      | complete | silent kept => exact h
  | sigterm => exact h
  | isDirectoryFail hpc | setmntentFail hpc =>
    rw [Refused, hpc] at h
    exact ⟨rfl, h.2⟩
  | isDirectory hpc =>
    rw [Refused, hpc] at h
    exact h
  | noDirectory hpc =>
    rw [Refused, hpc] at h
    have hno : false = r.mountpoint := of_decide_eq_true hadm
    rw [h.1] at hno
    cases hno
  | setmntent entries hpc =>
    rw [Refused, hpc] at h
    obtain rfl : entries = r.mounts := of_decide_eq_true hadm
    exact ⟨h.2, h.2⟩
  | getmntentEnd hpc =>
    rw [Refused, hpc] at h
    cases h.2
  | getmntentHit hpc hdir =>
    rw [Refused, hpc] at h
    obtain ⟨hregistry, hentries⟩ := h
    rw [MountTable.mountedAt, List.filter_cons_of_pos (by simpa using hdir)] at hentries
    obtain rfl := (List.cons.inj hentries).1
    rw [show s.proceed (decide (_ = "tmpfs")) .openLock = s.throw by
      rw [decide_eq_false htype]; rfl]
    exact ⟨rfl, hregistry⟩
  | getmntentNext hpc hdir =>
    rw [Refused, hpc] at h
    obtain ⟨hregistry, hentries⟩ := h
    rw [MountTable.mountedAt, List.filter_cons_of_neg (by simpa using hdir)] at hentries
    exact ⟨hregistry, hentries⟩
  | umount ok hpc =>
    rw [Refused, hpc] at h
    obtain rfl : ok = umounts := beq_iff_eq.mp hun
    cases ok with
    | false => exact h
    | true =>
      refine ⟨h.1, ?_⟩
      rw [Resources.registry, Resources.after, MountTable.mountedAt_umount_self, ← h.2]
      rfl
  | closeLock hpc | cgroup hpc | noCgroup hpc | leaf _ hpc | leavesEnd hpc =>
    rw [Refused, hpc] at h
    exact h
  | unlinkLock ok hpc | rmdir ok hpc =>
    rw [Refused, hpc] at h
    cases ok <;> exact h
  | createDirectories _ hpc | mount _ hpc | openLock _ hpc | config _ hpc | socket _ hpc
  | unlinkSock _ hpc | bind _ hpc | chmod _ hpc | listen _ hpc | serve hpc =>
    rw [Refused, hpc] at h
    exact h.elim

end Srund

namespace Host

variable {h h' : Host} {ev : HostEvent}

/-- The daemon has been refused so far, and the socket is as it was. -/
def Refusing (umounts : Bool) (found : MountTable String String) (sock : Bool) (h : Host) : Prop :=
  ∃ s, h.srund = some s ∧ s.Refused umounts found h.res ∧ h.res.sockfile = sock

theorem Refusing.step {e : Mnt} {rest : MountTable String String} {umounts sock : Bool}
    (htype : e.type ≠ "tmpfs") (hrefusing : Refusing umounts (e :: rest) sock h)
    (hun : ev.undisturbed umounts = true) (hstep : Step h ev h') :
    Refusing umounts (e :: rest) sock h' := by
  obtain ⟨s, hs, hrefused, hsock⟩ := hrefusing
  cases hstep with
  | start | kill => cases hun
  | @srund t s' l hsome hadm hstep =>
    obtain rfl := Option.some.inj (hs.symm.trans hsome)
    exact ⟨s', rfl, hrefused.step htype hadm hun hstep, (hrefused.sockfile hstep).trans hsock⟩
  | leaves ls => exact ⟨s, hs, hrefused.congr rfl rfl, hsock⟩
  | mount e hdir =>
    exact ⟨s, hs, hrefused.congr (MountTable.mountedAt_mount_of_ne _ _ hdir) rfl, hsock⟩
  | umount dir hdir =>
    exact ⟨s, hs, hrefused.congr (MountTable.mountedAt_umount_of_ne _ hdir) rfl, hsock⟩

/-- **A foreign file system is taken away.** If the first file system on the registry's
directory is of another type, the daemon refuses to start: it never gets to its loop, and does
not touch the socket of a predecessor. But `clear_resource` runs all the same, and unless its
`umount` fails, the topmost file system on the directory, which is not the daemon's, is gone. -/
theorem foreign_unmounted {r : Resources} {e : Mnt} {rest : MountTable String String} {pid : Int}
    {umounts : Bool} {evs : List HostEvent} (hdir : r.mountpoint = true)
    (hfound : r.registry = e :: rest) (htype : e.type ≠ "tmpfs")
    (hun : ∀ ev ∈ evs, ev.undisturbed umounts = true)
    (hexec : exec Host.step { res := r } (.start pid :: evs) = some h) :
    ∃ s, h.srund = some s ∧ s.pc.looping = false ∧ h.res.sockfile = r.sockfile ∧
      ∀ result, s.pc = .returned result → result = -1 ∧
        h.res.registry = if umounts then r.registry.dropLast else r.registry := by
  obtain ⟨h₁, h1, hexec⟩ := exec_cons_eq_some.mp hexec
  obtain rfl : { res := r, srund := some { pid := pid } } = h₁ := Option.some.inj h1
  have hstart : Refusing umounts (e :: rest) r.sockfile ⟨r, some { pid := pid }⟩ :=
    ⟨_, rfl, ⟨hdir, hfound⟩, rfl⟩
  have halways := always_of_stepsMeet
    (fun h ev h' hI hC h1 => Refusing.step htype hI hC (step_cases h1)) (fun h hI => hI) hstart
    ((stepsMeet_iff_forall hexec).mpr hun)
  obtain ⟨s, hs, hrefused, hsock⟩ := halways.last hexec
  refine ⟨s, hs, ?_, hsock, fun result hpc => ?_⟩
  · cases hpc : s.pc with
    | serve d =>
      rw [Srund.Refused, hpc] at hrefused
      exact hrefused.elim
    | _ => rfl
  · rw [Srund.Refused, hpc] at hrefused
    rw [hfound]
    exact hrefused

/-- A daemon that finds a disk on the directory. -/
def diskRun : List HostEvent :=
  [.daemonize true, .writePid (Proto3.text (toString (7 : Int))) (some .complete),
    .isDirectory (some true), .setmntent (some [⟨tmpfs, "ext4"⟩]), .getmntent, .umount true,
    .closeLock (-1), .unlinkLock false, .cgroup (some false)].map .srund

theorem foreign_unmounted_disk :
    ∃ h, exec Host.step { res := { mounts := [⟨tmpfs, "ext4"⟩], mountpoint := true } }
        (.start 7 :: diskRun) = some h ∧
      ∃ s, h.srund = some s ∧ s.pc.looping = false ∧ h.res.sockfile = false ∧
        ∀ result, s.pc = .returned result → result = -1 ∧ h.res.registry = [] := by
  have hrun : (exec Host.step { res := { mounts := [⟨tmpfs, "ext4"⟩], mountpoint := true } }
      (.start 7 :: diskRun)).any (fun h => h.srund.any (·.pc = .returned (-1))) = true := by
    decide +kernel
  obtain ⟨h, hexec, -⟩ := exec_of_any hrun
  have hun : ∀ ev ∈ diskRun, ev.undisturbed true = true := by decide
  exact ⟨h, hexec, foreign_unmounted rfl rfl (by decide) hun hexec⟩

end Host
end Srun
