import Srun.Config

/-!
# The overlay of a group

What `Config::fillRequest` does to a request, for every key file and every group.

Its twelve scalar blocks amount to an `Overlay`, a partial assignment of the scalar fields:
each block reads its own key and sets its own field, and a key that is missing or that its
getter refuses changes nothing (`fillScalars_eq`). `scalars_overlaid` draws the conclusions:
the fields are independent of each other, laying a group over a request twice is laying it
over it once, and the order of two groups does not matter when no field is given by both.

The loop over the environment keys asks for `env1` in every round. It appends the values
that the group numbers exactly when there are none (`envs_filled_iff`).
-/

namespace Srun

/-- The values that a group gives to the scalar fields; `none` where it gives none. It is what is
left of a key file once its getters have been asked. -/
structure Overlay where
  timeout : Option Int32
  user : Option String
  chroot : Option String
  outmode : Option OutMode
  errmode : Option OutMode
  outfile : Option String
  errfile : Option String
  network : Option Bool
  backend : Option Bool
  nice : Option Int32
  memlimit : Option String
  memswlimit : Option String

/-- The readable keys of a group. -/
def KeyFile.overlay (kf : KeyFile) (group : String) : Overlay where
  timeout := kf.getInteger group "timeout"
  user := kf.getString group "user"
  chroot := kf.getString group "chroot"
  outmode := (kf.getString group "outmode").bind OutMode.ofText
  errmode := (kf.getString group "errmode").bind OutMode.ofText
  outfile := kf.getString group "outfile"
  errfile := kf.getString group "errfile"
  network := kf.getBoolean group "network"
  backend := kf.getBoolean group "backend"
  nice := kf.getInteger group "nice"
  memlimit := kf.getString group "memlimit"
  memswlimit := kf.getString group "memswlimit"

namespace Overlay

/-- Every field that is given a value has it, the others stay. -/
def apply (o : Overlay) (r : Request) : Request :=
  { r with
    timeout := o.timeout.getD r.timeout
    user := o.user.getD r.user
    chroot := o.chroot.getD r.chroot
    outmode := o.outmode.getD r.outmode
    errmode := o.errmode.getD r.errmode
    outfile := o.outfile.getD r.outfile
    errfile := o.errfile.getD r.errfile
    network := o.network.getD r.network
    backend := o.backend.getD r.backend
    nice := o.nice.getD r.nice
    memlimit := o.memlimit.getD r.memlimit
    memswlimit := o.memswlimit.getD r.memswlimit }

/-- No field is given a value by both. -/
structure Disjoint (o o' : Overlay) : Prop where
  timeout : o.timeout = none ∨ o'.timeout = none
  user : o.user = none ∨ o'.user = none
  chroot : o.chroot = none ∨ o'.chroot = none
  outmode : o.outmode = none ∨ o'.outmode = none
  errmode : o.errmode = none ∨ o'.errmode = none
  outfile : o.outfile = none ∨ o'.outfile = none
  errfile : o.errfile = none ∨ o'.errfile = none
  network : o.network = none ∨ o'.network = none
  backend : o.backend = none ∨ o'.backend = none
  nice : o.nice = none ∨ o'.nice = none
  memlimit : o.memlimit = none ∨ o'.memlimit = none
  memswlimit : o.memswlimit = none ∨ o'.memswlimit = none

theorem getD_idem {α : Type} (v : Option α) (a : α) : v.getD (v.getD a) = v.getD a := by
  cases v <;> rfl

theorem getD_comm {α : Type} {v w : Option α} (h : v = none ∨ w = none) (a : α) :
    v.getD (w.getD a) = w.getD (v.getD a) := by
  rcases h with rfl | rfl
  · rfl
  · rfl

/-- Twice is once. -/
theorem apply_apply (o : Overlay) (r : Request) : o.apply (o.apply r) = o.apply r := by
  simp only [apply, getD_idem]

/-- Disjoint overlays commute. -/
theorem Disjoint.apply_comm {o o' : Overlay} (h : o.Disjoint o') (r : Request) :
    o.apply (o'.apply r) = o'.apply (o.apply r) := by
  simp only [apply, getD_comm h.timeout, getD_comm h.user, getD_comm h.chroot,
    getD_comm h.outmode, getD_comm h.errmode, getD_comm h.outfile, getD_comm h.errfile,
    getD_comm h.network, getD_comm h.backend, getD_comm h.nice, getD_comm h.memlimit,
    getD_comm h.memswlimit]

end Overlay

/-- A block of `Config::fillRequest`, by the field that it sets. Setting a field to what it is
changes nothing, so that a missing key need not be a case of its own. -/
theorem fillField_eq {α : Type} (v : Option α) (set : α → Request → Request) (get : Request → α)
    (hset : ∀ r, set (get r) r = r) (r : Request) :
    fillField v set r = set (v.getD (get r)) r := by
  cases v with
  | none => exact (hset r).symm
  | some a => rfl

variable {kf kf' : KeyFile} {group group' : String}

/-- The scalar part of `Config::fillRequest` is the overlay of the group's readable keys. -/
theorem fillScalars_eq (kf : KeyFile) (group : String) (r : Request) :
    fillScalars kf group r = (kf.overlay group).apply r := by
  simp only [fillScalars]
  -- the blocks in the order of the source
  rw [fillField_eq _ (fun v r => { r with timeout := v }) Request.timeout fun _ => rfl,
    fillField_eq _ (fun v r => { r with user := v }) Request.user fun _ => rfl,
    fillField_eq _ (fun v r => { r with chroot := v }) Request.chroot fun _ => rfl,
    fillField_eq _ (fun v r => { r with outmode := v }) Request.outmode fun _ => rfl,
    fillField_eq _ (fun v r => { r with errmode := v }) Request.errmode fun _ => rfl,
    fillField_eq _ (fun v r => { r with outfile := v }) Request.outfile fun _ => rfl,
    fillField_eq _ (fun v r => { r with errfile := v }) Request.errfile fun _ => rfl,
    fillField_eq _ (fun v r => { r with network := v }) Request.network fun _ => rfl,
    fillField_eq _ (fun v r => { r with backend := v }) Request.backend fun _ => rfl,
    fillField_eq _ (fun v r => { r with nice := v }) Request.nice fun _ => rfl,
    fillField_eq _ (fun v r => { r with memlimit := v }) Request.memlimit fun _ => rfl,
    fillField_eq _ (fun v r => { r with memswlimit := v }) Request.memswlimit fun _ => rfl]
  rfl

/-- The request `r'` after the scalar part of `Config::fillRequest` on `r`, field by field:
the value of the field's own key, or what the field was. -/
structure ScalarsFrom (kf : KeyFile) (group : String) (r r' : Request) : Prop where
  timeout : r'.timeout = (kf.getInteger group "timeout").getD r.timeout
  user : r'.user = (kf.getString group "user").getD r.user
  chroot : r'.chroot = (kf.getString group "chroot").getD r.chroot
  outmode : r'.outmode = ((kf.getString group "outmode").bind OutMode.ofText).getD r.outmode
  errmode : r'.errmode = ((kf.getString group "errmode").bind OutMode.ofText).getD r.errmode
  outfile : r'.outfile = (kf.getString group "outfile").getD r.outfile
  errfile : r'.errfile = (kf.getString group "errfile").getD r.errfile
  network : r'.network = (kf.getBoolean group "network").getD r.network
  backend : r'.backend = (kf.getBoolean group "backend").getD r.backend
  nice : r'.nice = (kf.getInteger group "nice").getD r.nice
  memlimit : r'.memlimit = (kf.getString group "memlimit").getD r.memlimit
  memswlimit : r'.memswlimit = (kf.getString group "memswlimit").getD r.memswlimit
  args : r'.args = r.args
  model : r'.model = r.model
  envs : r'.envs = r.envs

/-- `vs` are the values of `env1`, `env2` and so on, up to the first key that is missing. -/
structure EnvValues (kf : KeyFile) (group : String) (vs : List String) : Prop where
  present : ∀ i (h : i < vs.length), kf.getString group ("env" ++ toString (i + 1)) = some vs[i]
  missing : kf.getString group ("env" ++ toString (vs.length + 1)) = none

/-- **The environment loop.** It ends, and has appended the numbered values, if and only if
the group has no `env1`. -/
theorem envs_filled_iff (kf : KeyFile) (group : String) (r : Request) :
    (∃ fuel r' vs, fillEnvs kf group 1 fuel r = some r' ∧ EnvValues kf group vs ∧
        r' = { r with envs := r.envs ++ vs }) ↔
      kf.getString group "env1" = none := by
  constructor
  · -- a loop that has ended has found no value in its first round
    rintro ⟨fuel, r', vs, hrun, -, -⟩
    cases fuel with
    | zero => cases hrun
    | succ fuel =>
      rw [fillEnvs_succ] at hrun
      exact (Option.ite_none_right_eq_some.mp hrun).1
  · intro hmissing
    refine ⟨1, r, [], ?_, ⟨fun i h => absurd h (Nat.not_lt_zero i), hmissing⟩, ?_⟩
    · rw [fillEnvs_succ]
      exact if_pos hmissing
    · rw [List.append_nil]

/-- A group with one environment variable, as the shipped file shows it. -/
def envKeyFile : KeyFile := ⟨[("example", [("env1", { string := some "PATH=/bin" })])]⟩

/-- Its only value should be appended once. The loop does not end. -/
theorem not_envs_filled :
    EnvValues envKeyFile "example" ["PATH=/bin"] ∧
      ∀ fuel, fillEnvs envKeyFile "example" 1 fuel {} = none := by
  refine ⟨⟨fun i h => ?_, by decide⟩, fun fuel => ?_⟩
  · -- its one key is `env1`, which every round finds again
    obtain rfl : i = 0 := Nat.lt_one_iff.mp h
    have hvalue : envKeyFile.getString "example" ("env" ++ toString 1) = some "PATH=/bin" := by
      decide
    exact hvalue
  · cases fuel with
    | zero => rfl
    | succ fuel =>
      rw [fillEnvs_succ]
      exact if_neg (by decide)

end Srun
