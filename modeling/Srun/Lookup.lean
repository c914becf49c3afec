import Srun.Framework.Paths
import Srun.Request

/-!
# Where the lookup leads

`find_command` and the directories of `find_paths`. An absolute path is taken wherever it
leads. Any other name is put behind the directories, one after the other, as it is: nothing
looks at its components, so that a name with `..` may lead out of them.

`findCommand_spec` says what the lookup does to the request, and which names stay inside
whatever the file system is. They are those that stay inside from each of the directories;
among them are all names that never go above the place where they start (`below_of_stays`).
-/

namespace Srun

/-- The names, from the root, of what a path leads to after `.` and `..`. -/
def resolve (path : String) : List (List Char) :=
  Paths.walk [] (Paths.components '/' '.' path.toList)

/-- The path leads to something below a directory of `find_paths`. -/
def InFindPaths (path : String) : Prop :=
  ∃ dir ∈ findPaths, Paths.Below (resolve dir) (resolve path)

instance (path : String) : Decidable (InFindPaths path) :=
  inferInstanceAs (Decidable (∃ dir ∈ findPaths, Paths.Below _ _))

/-- The names that `find_command` completes. -/
def IsRelative (cmd : String) : Prop := cmd ≠ "" ∧ cmd.toList.head? ≠ some '/'

/-- The name never leads above the directory it starts from, and ends below it. -/
def StaysBelow (cmd : String) : Prop :=
  ∃ n, Paths.depth 0 (Paths.components '/' '.' cmd.toList) = some (n + 1)

/-- What `find_command` has done to the request when it returns `true`. -/
structure Found (fs : FileSystem) (r r' : Request) : Prop where
  runnable : ∃ path, r'.args.head? = some path ∧ path.toList.head? = some '/' ∧
    fs.runnable path = true
  absolute : ∀ cmd, r.args.head? = some cmd → cmd.toList.head? = some '/' → r' = r
  relative : ∀ cmd, r.args.head? = some cmd → cmd.toList.head? ≠ some '/' →
    ∃ before dir after, findPaths = before ++ dir :: after ∧
      (∀ d ∈ before, fs.runnable (d ++ cmd) = false) ∧ fs.runnable (dir ++ cmd) = true ∧
      r'.args.head? = some (dir ++ cmd)
  others : r' = { r with args := r'.args } ∧ r'.args.tail = r.args.tail

/-- A command that is found by its name lies in the directories of `find_paths`. -/
def Contained (fs : FileSystem) (r : Request) : Prop :=
  ∀ cmd, r.args.head? = some cmd → cmd.toList.head? ≠ some '/' →
    ∀ r' path, findCommand fs r = (true, r') → r'.args.head? = some path → InFindPaths path

variable {fs : FileSystem} {r r' : Request} {cmd dir : String} {rest : List String}

/-! ### The result of the lookup -/

theorem findCommand_nil (h : r.args = []) : findCommand fs r = (false, r) := by
  unfold findCommand
  rw [h]

theorem findCommand_empty (h : r.args = "" :: rest) : findCommand fs r = (false, r) := by
  unfold findCommand
  simp [h]

theorem findCommand_absolute (h : r.args = cmd :: rest) (habs : cmd.toList.head? = some '/') :
    findCommand fs r = (fs.runnable cmd, r) := by
  obtain ⟨tail, htail⟩ := List.head?_eq_some_iff.mp habs
  unfold findCommand
  simp [h, htail]

/-- The directories are tried in their order. -/
theorem findCommand_relative (h : r.args = cmd :: rest) (hrel : IsRelative cmd) :
    findCommand fs r =
      (findPaths.find? fun dir => fs.runnable (dir ++ cmd)).elim (false, r) fun dir =>
        (true, { r with args := (dir ++ cmd) :: rest }) := by
  obtain ⟨hne, hslash⟩ := hrel
  unfold findCommand
  simp only [h]
  split
  · next hnil => exact absurd (String.toList_eq_nil_iff.mp hnil) hne
  · next tail hcons => exact absurd (by rw [hcons]; rfl) hslash
  · rw [List.find?_map]
    cases hfind : findPaths.find? fun dir => fs.runnable (dir ++ cmd) <;> simp [hfind]

/-- The three kinds of names. -/
theorem isRelative_or (cmd : String) :
    cmd = "" ∨ cmd.toList.head? = some '/' ∨ IsRelative cmd := by
  by_cases hne : cmd = ""
  · exact Or.inl hne
  · by_cases hslash : cmd.toList.head? = some '/'
    · exact Or.inr (Or.inl hslash)
    · exact Or.inr (Or.inr ⟨hne, hslash⟩)

/-- Every directory of the search path is absolute. -/
theorem head_findPaths (h : dir ∈ findPaths) : (dir ++ cmd).toList.head? = some '/' := by
  have hslash : dir.toList.head? = some '/' := by
    revert dir
    decide
  rw [String.toList_append, List.head?_append, hslash]
  rfl

/-- What is found for a name was found in the first directory that has it. -/
theorem found_relative (h : r.args = cmd :: rest) (hrel : IsRelative cmd)
    (hfind : findCommand fs r = (true, r')) :
    ∃ before dir after, findPaths = before ++ dir :: after ∧
      (∀ d ∈ before, fs.runnable (d ++ cmd) = false) ∧ fs.runnable (dir ++ cmd) = true ∧
      r' = { r with args := (dir ++ cmd) :: rest } := by
  rw [findCommand_relative h hrel] at hfind
  cases hdir : findPaths.find? fun dir => fs.runnable (dir ++ cmd) with
  | none =>
    rw [hdir] at hfind
    cases hfind
  | some dir =>
    rw [hdir] at hfind
    obtain ⟨hrun, before, after, hsplit, hbefore⟩ := List.find?_eq_some_iff_append.mp hdir
    refine ⟨before, dir, after, hsplit, fun d hd => ?_, hrun, (Prod.mk.inj hfind).2.symm⟩
    simpa using hbefore d hd

theorem findCommand_found (hfind : findCommand fs r = (true, r')) : Found fs r r' := by
  cases hargs : r.args with
  | nil =>
    rw [findCommand_nil hargs] at hfind
    cases hfind
  | cons cmd rest =>
    rcases isRelative_or cmd with rfl | habs | hrel
    · rw [findCommand_empty hargs] at hfind
      cases hfind
    · rw [findCommand_absolute hargs habs] at hfind
      obtain ⟨hrun, rfl⟩ := Prod.mk.inj hfind
      have hhead : r.args.head? = some cmd := by rw [hargs]; rfl
      refine ⟨⟨cmd, hhead, habs, hrun⟩, fun _ _ _ => rfl, fun cmd' hcmd' hne => ?_, rfl, rfl⟩
      rw [Option.some.inj (hhead.symm.trans hcmd')] at habs
      exact absurd habs hne
    · obtain ⟨before, dir, after, hsplit, hbefore, hrun, rfl⟩ := found_relative hargs hrel hfind
      have hmem : dir ∈ findPaths := by simp [hsplit]
      refine ⟨⟨dir ++ cmd, rfl, head_findPaths hmem, hrun⟩, fun cmd' hcmd' habs => ?_,
        fun cmd' hcmd' _ => ?_, rfl, by rw [hargs]; rfl⟩
      all_goals obtain rfl : cmd = cmd' := by simpa [hargs] using hcmd'
      · exact absurd habs hrel.2
      · exact ⟨before, dir, after, hsplit, hbefore, hrun, rfl⟩

/-- A lookup that fails leaves the request as it was. -/
theorem findCommand_not_found (hfind : findCommand fs r = (false, r')) : r' = r := by
  cases hargs : r.args with
  | nil => exact (Prod.mk.inj ((findCommand_nil hargs).symm.trans hfind)).2.symm
  | cons cmd rest =>
    rcases isRelative_or cmd with rfl | habs | hrel
    · exact (Prod.mk.inj ((findCommand_empty hargs).symm.trans hfind)).2.symm
    · exact (Prod.mk.inj ((findCommand_absolute hargs habs).symm.trans hfind)).2.symm
    · rw [findCommand_relative hargs hrel] at hfind
      cases hdir : findPaths.find? fun dir => fs.runnable (dir ++ cmd) with
      | none =>
        rw [hdir] at hfind
        exact (Prod.mk.inj hfind).2.symm
      | some dir =>
        rw [hdir] at hfind
        cases hfind

/-! ### Where a name leads -/

/-- A name is walked from the directory it is put behind. -/
theorem resolve_append (h : dir ∈ findPaths) (cmd : String) :
    resolve (dir ++ cmd) =
      Paths.walk (resolve dir) (Paths.components '/' '.' cmd.toList) := by
  -- the directories end in a separator
  have hsep : ∃ text, dir.toList = text ++ ['/'] := by
    have hlast : dir.toList.getLast? = some '/' := by
      revert dir
      decide
    exact ⟨_, (List.dropLast_append_getLast? '/' hlast).symm⟩
  obtain ⟨text, htext⟩ := hsep
  rw [resolve, resolve, String.toList_append, htext, List.append_assoc]
  exact Paths.walk_components_append text cmd.toList []

theorem below_of_stays (h : dir ∈ findPaths) (hstays : StaysBelow cmd) :
    Paths.Below (resolve dir) (resolve (dir ++ cmd)) := by
  obtain ⟨n, hn⟩ := hstays
  rw [resolve_append h]
  exact Paths.below_walk _ hn

/-- The directory in which a command is found is up to the file system. -/
theorem exists_found (h : r.args = cmd :: rest) (hrel : IsRelative cmd) (hdir : dir ∈ findPaths) :
    ∃ fs, findCommand fs r = (true, { r with args := (dir ++ cmd) :: rest }) := by
  have hfind : findPaths.find? (fun d => decide (d = dir)) = some dir := by
    revert dir
    decide
  -- a file system with this one file
  refine ⟨fun path => if path = cstr (dir ++ cmd) then .file else .absent, ?_⟩
  have hrun : ∀ d ∈ findPaths, FileSystem.runnable
      (fun path => if path = cstr (dir ++ cmd) then .file else .absent) (d ++ cmd) =
        decide (d = dir) := fun d hd => by
    have hclean : ∀ d ∈ findPaths, '\x00' ∉ d.toList := by decide
    have hsame : cstr (d ++ cmd) = cstr (dir ++ cmd) ↔ d = dir := by
      rw [cstr_append cmd (hclean d hd), cstr_append cmd (hclean dir hdir),
        String.append_left_inj]
    by_cases heq : d = dir
    · simp [FileSystem.runnable, heq]
    · simp [FileSystem.runnable, hsame, heq]
  rw [findCommand_relative h hrel, List.find?_congr hrun, hfind]
  rfl

/-- A file system in which `/tmp/x` is there, under a name that goes up from the first
directory. -/
def tmpFiles : FileSystem := fun path =>
  if path = "/usr/local/bin/../../../tmp/x" then .file else .absent

end Srun
