import Srun.Precedence

/-!
# The overloads of loadRequest

`Config::loadRequest` comes twice: over the key files that the constructor has loaded, and
over a file that it loads itself. On one file they lay the same group over the request
(`overlaid_alike`), but the second one never calls `g_key_file_has_group`. Where the file is
there and the group is not, it changes nothing and still returns `true`.
-/

namespace Srun

namespace Config

/-- `Config::loadRequest` with a file; `none` when it does not return. `F` is what the file
holds, and `none` when `g_key_file_load_from_file` fails. -/
def loadRequestFile (F : Option KeyFile) (r : Request) : Option (Bool × Request) :=
  if r.model = "" then some (true, r)
  else
    match F with
    | none => some (false, r)
    | some kf => (fillRequest kf r.model r).map fun r => (true, r)

/-- The one file of the configuration holds `F`; it has no entry when it was not loaded. -/
def OnlyFile (c : Config) (F : Option KeyFile) : Prop :=
  ∃ path, c.keyfiles = (F.map fun kf => (path, kf)).toList

/-- The two calls agree on a request: where both return, they return the same and leave the
same request. -/
def Alike (c : Config) (F : Option KeyFile) (r : Request) : Prop :=
  ∀ x ∈ c.loadRequest r, ∀ y ∈ loadRequestFile F r, x = y

end Config

variable {kf : KeyFile} {group key : String} {r : Request}

/-! ### A group that is not there -/

namespace KeyFile

theorem value_eq_none (h : kf.hasGroup group = false) : kf.value group key = none := by
  have hlookup : kf.groups.lookup (cstr group) = none := by simpa [hasGroup] using h
  rw [value, hlookup]
  rfl

theorem getInteger_eq_none (h : kf.hasGroup group = false) : kf.getInteger group key = none := by
  rw [getInteger, value_eq_none h]
  rfl

theorem getString_eq_none (h : kf.hasGroup group = false) : kf.getString group key = none := by
  rw [getString, value_eq_none h]
  rfl

theorem getBoolean_eq_none (h : kf.hasGroup group = false) : kf.getBoolean group key = none := by
  rw [getBoolean, value_eq_none h]
  rfl

end KeyFile

/-- Every getter sets the error, and the first environment key ends the loop. -/
theorem fillRequest_of_not_hasGroup (h : kf.hasGroup group = false) :
    fillRequest kf group r = some r := by
  rw [fillRequest, fillEnvs_succ, if_pos (KeyFile.getString_eq_none h)]
  simp only [fillScalars, KeyFile.getInteger_eq_none h, KeyFile.getString_eq_none h,
    KeyFile.getBoolean_eq_none h, Option.bind_none, fillField]

/-! ### The two calls -/

namespace Config

variable {c : Config} {F : Option KeyFile}

theorem onlyFile_createMain (F : Option KeyFile) : OnlyFile (createMain F) F := by
  refine ⟨confpath, ?_⟩
  cases F with
  | none => rfl
  | some kf => rfl

/-- The constructor with the main file alone. -/
theorem onlyFile_create (hc : create (some F) none = some c) : OnlyFile c F :=
  Option.some.inj hc ▸ onlyFile_createMain F

/-- The constructor with a main file that is not loaded and one file in the directory. -/
theorem onlyFile_create_dir {f : ConfFile} {dir : ConfDir} (hdir : dir.files = [f])
    (hf : f.regular = true) (hc : create (some none) (some dir) = some c) :
    OnlyFile c f.keyfile := by
  obtain rfl := Option.some.inj hc
  refine ⟨f.path, ?_⟩
  show (dir.files.foldl load (createMain none)).keyfiles = _
  rw [hdir, List.foldl_cons, List.foldl_nil, load, if_pos hf]
  cases f.keyfile with
  | none => rfl
  | some kf => rfl

/-- On a file that was not loaded both calls fail. -/
theorem loadRequest_none (h : OnlyFile c none) (hm : r.model ≠ "") :
    c.loadRequest r = some (false, r) ∧ loadRequestFile none r = some (false, r) := by
  obtain ⟨path, hfiles⟩ := h
  constructor
  · unfold loadRequest
    simp [hm, hfiles]
  · simp [loadRequestFile, hm]

/-- On a file that was loaded both calls fill the request, and only one of them says whether
there was anything to fill it with. -/
theorem loadRequest_some (h : OnlyFile c (some kf)) (hm : r.model ≠ "") :
    c.loadRequest r = (fillRequest kf r.model r).map (fun r' => (kf.hasGroup r.model, r')) ∧
      loadRequestFile (some kf) r = (fillRequest kf r.model r).map fun r' => (true, r') := by
  obtain ⟨path, hfiles⟩ := h
  constructor
  · unfold loadRequest
    cases hgroup : kf.hasGroup r.model with
    | true => simp [hm, hfiles, hgroup]
    | false => simp [hm, hfiles, hgroup, fillRequest_of_not_hasGroup hgroup]
  · simp [loadRequestFile, hm]

theorem loadRequest_model_empty (c : Config) (F : Option KeyFile) (hm : r.model = "") :
    c.loadRequest r = some (true, r) ∧ loadRequestFile F r = some (true, r) := by
  simp [loadRequest, loadRequestFile, hm]

/-- In the request there is never a difference. -/
theorem overlaid_alike (h : OnlyFile c F) (r : Request) :
    (c.loadRequest r).map Prod.snd = (loadRequestFile F r).map Prod.snd := by
  by_cases hm : r.model = ""
  · obtain ⟨hc, hf⟩ := loadRequest_model_empty c F hm
    rw [hc, hf]
  · cases F with
    | none => rw [(loadRequest_none h hm).1, (loadRequest_none h hm).2]
    | some kf =>
      rw [(loadRequest_some h hm).1, (loadRequest_some h hm).2, Option.map_map, Option.map_map]
      rfl

/-- **The overloads.** On a configuration with one file, the two calls agree on a request
exactly when it names no group, or the file cannot be loaded, or the file has the group. -/
theorem alike_iff (h : OnlyFile c F) (r : Request) :
    Alike c F r ↔ r.model = "" ∨ F = none ∨ ∃ kf, F = some kf ∧ kf.hasGroup r.model = true := by
  by_cases hm : r.model = ""
  · obtain ⟨hc, hf⟩ := loadRequest_model_empty c F hm
    simp [Alike, hc, hf, hm]
  · cases F with
    | none => simp [Alike, (loadRequest_none h hm).1, (loadRequest_none h hm).2]
    | some kf =>
      obtain ⟨hc, hf⟩ := loadRequest_some h hm
      rw [Alike, hc, hf]
      cases hgroup : kf.hasGroup r.model with
      | true =>
        simp only [hgroup, reduceCtorEq, or_true, Option.some.injEq, exists_eq_left', iff_true]
        intro x hx y hy
        exact Option.mem_unique hx hy
      | false =>
        -- both return, and only one of them complains
        simp [hgroup, hm, fillRequest_of_not_hasGroup hgroup]

/-- A request for a group `g`, on a file without groups. -/
theorem not_alike : ∃ c, create (some (some ⟨[]⟩)) none = some c ∧
    ¬Alike c (some ⟨[]⟩) { model := "g" } :=
  ⟨createMain (some ⟨[]⟩), rfl, fun h =>
    absurd (h (false, { model := "g" }) (by decide) (true, { model := "g" }) (by decide))
      (by decide)⟩

/-- The two calls on a file that has the group. -/
theorem alike_iff_group :
    Alike (createMain (some ⟨[("g", [])]⟩)) (some ⟨[("g", [])]⟩) { model := "g" } :=
  (alike_iff (onlyFile_createMain _) _).mpr (Or.inr (Or.inr ⟨_, rfl, by decide⟩))

end Config

end Srun
