import Srun.Request

/-!
# Configuration files

`Config` of `config.cpp`: the key files that have been loaded, and the overlay of a group
of one of them on a request.

The key files are glib's. A `KeyFile` is what its getters show of it: a getter that sets the
error gives `none`. The getters of one key are independent, because each reads the text of
the value in its own way.
-/

namespace Srun

/-- A value, as the typed getters read it. -/
structure KeyValue where
  integer : Option Int32 := none
  string : Option String := none
  boolean : Option Bool := none
  deriving DecidableEq

/-- A key file: its groups by name, and the keys of each. -/
structure KeyFile where
  groups : List (String × List (String × KeyValue)) := []
  deriving DecidableEq

namespace KeyFile

/-- `g_key_file_has_group`. -/
def hasGroup (kf : KeyFile) (group : String) : Bool := (kf.groups.lookup (cstr group)).isSome

def value (kf : KeyFile) (group key : String) : Option KeyValue :=
  (kf.groups.lookup (cstr group)).bind (·.lookup key)

/-- `g_key_file_get_integer`. -/
def getInteger (kf : KeyFile) (group key : String) : Option Int32 :=
  (kf.value group key).bind (·.integer)

/-- `g_key_file_get_string`. -/
def getString (kf : KeyFile) (group key : String) : Option String :=
  (kf.value group key).bind (·.string)

/-- `g_key_file_get_boolean`. -/
def getBoolean (kf : KeyFile) (group key : String) : Option Bool :=
  (kf.value group key).bind (·.boolean)

end KeyFile

/-- The texts of `outmode` and `errmode`; another text changes nothing. -/
def OutMode.ofText (s : String) : Option OutMode :=
  if s = "IGN" then some .ign
  else if s = "MSG" then some .msg
  else if s = "FILE" then some .file
  else none

/-- One key of a group: the field is set unless the getter has set the error. -/
def fillField {α : Type} (v : Option α) (set : α → Request → Request) (r : Request) : Request :=
  match v with
  | none => r
  | some a => set a r

/-- The part of `Config::fillRequest` before its loop. -/
def fillScalars (kf : KeyFile) (group : String) (r : Request) : Request :=
  let r := fillField (kf.getInteger group "timeout") (fun v r => { r with timeout := v }) r
  let r := fillField (kf.getString group "user") (fun v r => { r with user := v }) r
  let r := fillField (kf.getString group "chroot") (fun v r => { r with chroot := v }) r
  let r := fillField ((kf.getString group "outmode").bind OutMode.ofText)
    (fun v r => { r with outmode := v }) r
  let r := fillField ((kf.getString group "errmode").bind OutMode.ofText)
    (fun v r => { r with errmode := v }) r
  let r := fillField (kf.getString group "outfile") (fun v r => { r with outfile := v }) r
  let r := fillField (kf.getString group "errfile") (fun v r => { r with errfile := v }) r
  let r := fillField (kf.getBoolean group "network") (fun v r => { r with network := v }) r
  let r := fillField (kf.getBoolean group "backend") (fun v r => { r with backend := v }) r
  let r := fillField (kf.getInteger group "nice") (fun v r => { r with nice := v }) r
  let r := fillField (kf.getString group "memlimit") (fun v r => { r with memlimit := v }) r
  fillField (kf.getString group "memswlimit") (fun v r => { r with memswlimit := v }) r

/-- The loop of `Config::fillRequest` over the environment keys, for `fuel` rounds; `none`
when it is still running. Nothing changes `n`. -/
def fillEnvs (kf : KeyFile) (group : String) (n : ℕ) : ℕ → Request → Option Request
  | 0, _ => none
  | fuel + 1, r =>
    match kf.getString group ("env" ++ toString n) with
    | none => some r
    -- the source increases nothing here, and so reads the same key again
    | some s => fillEnvs kf group n fuel { r with envs := r.envs ++ [s] }

/-- Each round of the loop asks for the same key: it ends in the first one or never. -/
theorem fillEnvs_succ (kf : KeyFile) (group : String) (n fuel : ℕ) (r : Request) :
    fillEnvs kf group n (fuel + 1) r =
      if kf.getString group ("env" ++ toString n) = none then some r else none := by
  induction fuel generalizing r with
  | zero =>
    simp only [fillEnvs]
    cases kf.getString group ("env" ++ toString n) <;> rfl
  | succ fuel ih =>
    rw [fillEnvs]
    cases hs : kf.getString group ("env" ++ toString n) with
    | none => rfl
    | some s =>
      -- the value is there in the next round too
      rw [hs] at ih
      exact ih _

/-- `Config::fillRequest`; `none` when it does not return. One round of its loop decides
(`fillEnvs_succ`). -/
def fillRequest (kf : KeyFile) (group : String) (r : Request) : Option Request :=
  fillEnvs kf group 1 1 (fillScalars kf group r)

/-- `class Config`: the key files in the order of their paths, as `std::map` keeps them. -/
structure Config where
  keyfiles : List (String × KeyFile)
  sorted : keyfiles.Pairwise fun f g => f.1 < g.1

namespace Config

/-- `Config::loadRequest`: what it returns, and the request; `none` when it does not
return. -/
def loadRequest (c : Config) (r : Request) : Option (Bool × Request) :=
  if r.model = "" then some (true, r)
  else
    match c.keyfiles.find? fun f => f.2.hasGroup r.model with
    | some f => (fillRequest f.2 r.model r).map fun r => (true, r)
    | none => some (false, r)

/-- The key file whose group is laid over the request. -/
def keyfileOf (c : Config) (r : Request) : Option KeyFile :=
  if r.model = "" then none
  else (c.keyfiles.find? fun f => f.2.hasGroup r.model).map Prod.snd

/-- The manager's surroundings with this configuration. It looks at the request only. -/
def env (c : Config) (E : Env) : Env :=
  { E with loadRequest := fun r => (c.loadRequest r).map Prod.snd }

end Config

/-! ### What the overlay does to a field -/

section

variable {α β : Type} {v : Option α} {set : α → Request → Request} {r : Request}

/-- A key of another field. -/
theorem fillField_other (f : Request → β) (h : ∀ a r, f (set a r) = f r) :
    f (fillField v set r) = f r := by
  cases v with
  | none => rfl
  | some a => exact h a r

/-- The key of the field itself. -/
theorem fillField_own (f : Request → α) (h : ∀ a r, f (set a r) = a) :
    f (fillField v set r) = v.getD (f r) := by
  cases v with
  | none => rfl
  | some a => exact h a r

end

variable {kf : KeyFile} {group : String} {r r' : Request}

theorem fillRequest_eq_some (h : fillRequest kf group r = some r') :
    r' = fillScalars kf group r := by
  rw [fillRequest, fillEnvs_succ] at h
  split at h
  · exact (Option.some.inj h).symm
  · cases h

/-- What becomes of the fields that tell how a command runs. -/
structure Overlaid (kf : Option KeyFile) (r r' : Request) : Prop where
  args : r'.args = r.args
  timeout : r'.timeout = (kf.bind (·.getInteger r.model "timeout")).getD r.timeout
  user : r'.user = (kf.bind (·.getString r.model "user")).getD r.user
  network : r'.network = (kf.bind (·.getBoolean r.model "network")).getD r.network
  backend : r'.backend = (kf.bind (·.getBoolean r.model "backend")).getD r.backend

theorem overlaid_refl (r : Request) : Overlaid none r r := ⟨rfl, rfl, rfl, rfl, rfl⟩

theorem overlaid_fillScalars (kf : KeyFile) (r : Request) :
    Overlaid (some kf) r (fillScalars kf r.model r) := by
  -- the keys come in the order of the source, the last one outermost
  constructor
  case args =>
    iterate 12 refine Eq.trans (fillField_other Request.args fun _ _ => rfl) ?_
    rfl
  case timeout =>
    iterate 11 refine Eq.trans (fillField_other Request.timeout fun _ _ => rfl) ?_
    exact fillField_own Request.timeout fun _ _ => rfl
  case user =>
    iterate 10 refine Eq.trans (fillField_other Request.user fun _ _ => rfl) ?_
    refine Eq.trans (fillField_own Request.user fun _ _ => rfl) ?_
    exact congrArg _ (fillField_other Request.user fun _ _ => rfl)
  case network =>
    iterate 4 refine Eq.trans (fillField_other Request.network fun _ _ => rfl) ?_
    refine Eq.trans (fillField_own Request.network fun _ _ => rfl) (congrArg _ ?_)
    iterate 7 refine Eq.trans (fillField_other Request.network fun _ _ => rfl) ?_
    rfl
  case backend =>
    iterate 3 refine Eq.trans (fillField_other Request.backend fun _ _ => rfl) ?_
    refine Eq.trans (fillField_own Request.backend fun _ _ => rfl) (congrArg _ ?_)
    iterate 8 refine Eq.trans (fillField_other Request.backend fun _ _ => rfl) ?_
    rfl

theorem Config.overlaid {c : Config} {b : Bool} (h : c.loadRequest r = some (b, r')) :
    Overlaid (c.keyfileOf r) r r' := by
  unfold Config.loadRequest at h
  unfold Config.keyfileOf
  split at h
  · next hm =>
    rw [if_pos hm]
    obtain ⟨-, rfl⟩ := Prod.mk.inj (Option.some.inj h)
    exact overlaid_refl r
  · next hm =>
    rw [if_neg hm]
    split at h
    · next f hf =>
      obtain ⟨r'', hr, heq⟩ := Option.map_eq_some_iff.mp h
      obtain ⟨-, rfl⟩ := Prod.mk.inj heq
      rw [hf, fillRequest_eq_some hr]
      exact overlaid_fillScalars f.2 r
    · next hf =>
      rw [hf]
      obtain ⟨-, rfl⟩ := Prod.mk.inj (Option.some.inj h)
      exact overlaid_refl r

end Srun
