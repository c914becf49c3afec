import Srun.Message

/-!
# Reading a request

The parts of `handle_request`, `find_command` and `set_timeout` that only compute:
the command lookup over a file system, the decision about a memory limit and the
timeout that is armed.
-/

namespace Srun

/-- What `c_str()` shows of a text to a C function. -/
def cstr (s : String) : String := String.ofList (s.toList.takeWhile (· ≠ '\x00'))

theorem cstr_toList (s : String) : (cstr s).toList = s.toList.takeWhile (· ≠ '\x00') :=
  String.toList_ofList

theorem cstr_append {s : String} (t : String) (h : '\x00' ∉ s.toList) :
    cstr (s ++ t) = s ++ cstr t := by
  refine String.toList_inj.mp ?_
  rw [cstr_toList, String.toList_append, String.toList_append, cstr_toList,
    List.takeWhile_append_of_pos]
  intro c hc
  exact decide_eq_true fun heq => h (heq ▸ hc)

/-- What `exists` and `is_directory` see at a path. -/
inductive FileKind
  | absent
  | directory
  | file
  deriving DecidableEq

/-- A file system, as far as the command lookup looks at it. -/
abbrev FileSystem := String → FileKind

/-- `exists(path) && !is_directory(path)`. -/
def FileSystem.runnable (fs : FileSystem) (path : String) : Bool :=
  fs (cstr path) ≠ .absent && fs (cstr path) ≠ .directory

/-- The directory of the registry, as `global.h` names it. -/
def tmpfs : String := "/var/cache/srund.tmpfs"

/-- `find_paths` of `global.h`. -/
def findPaths : List String :=
  ["/usr/local/bin/", "/usr/bin/", "/bin/", "/usr/local/sbin/", "/usr/sbin/", "/sbin/"]

/-- `find_command`: whether the command is there, and the request with `args(0)`
completed to a full path. -/
def findCommand (fs : FileSystem) (r : Request) : Bool × Request :=
  match r.args with
  | [] => (false, r)
  | cmd :: rest =>
    match cmd.toList with
    | [] => (false, r)
    | '/' :: _ => (fs.runnable cmd, r)
    | _ =>
      match (findPaths.map (· ++ cmd)).find? fs.runnable with
      | some abs => (true, { r with args := abs :: rest })
      | none => (false, r)

/-- The digits that `strtol` reads, as a number. -/
def strtolDigits (acc : ℕ) : List Char → ℕ
  | [] => acc
  | c :: cs => if c.isDigit then strtolDigits (acc * 10 + (c.toNat - '0'.toNat)) cs else acc

/-- `strtol(s, NULL, 10)`: blanks, a sign, digits; saturated to 64 bits. -/
def strtol (s : List Char) : Int :=
  let s := s.dropWhile fun c => c = ' ' || ('\t' ≤ c && c ≤ '\r')
  match s with
  | '-' :: cs => max (-(strtolDigits 0 cs : Int)) (-2 ^ 63)
  | '+' :: cs => min (strtolDigits 0 cs : Int) (2 ^ 63 - 1)
  | cs => min (strtolDigits 0 cs : Int) (2 ^ 63 - 1)

/-- `atoi`: the value of `strtol` reduced to an `int`. -/
def atoi (s : String) : Int32 := Int32.ofInt (strtol s.toList)

/-- The value written as a memory limit: the default for an empty text, the text
when `atoi` is positive, and nothing otherwise. -/
def limitValue (text default : String) : Option String :=
  if text = "" then some default else if 0 < atoi text then some text else none

namespace Request

/-- What is written to `memory.limit_in_bytes`. -/
def memlimitValue (r : Request) : Option String := limitValue r.memlimit "100M"

/-- What is written to `memory.memsw.limit_in_bytes`. -/
def memswlimitValue (r : Request) : Option String := limitValue r.memswlimit "1G"

/-- The seconds that `set_timeout` arms the timer with. -/
def timeoutSeconds (r : Request) : Int32 :=
  if r.timeout = 0 then (if r.backend then 7200 else 600) else r.timeout

end Request

/-- Whatever `find_command` finds has an argument to log. -/
theorem findCommand_args_ne_nil {fs : FileSystem} {r r' : Request}
    (h : findCommand fs r = (true, r')) : r'.args ≠ [] := by
  unfold findCommand at h
  split at h
  · cases h
  · next cmd rest hargs =>
    split at h
    · cases h
    · obtain ⟨-, rfl⟩ := Prod.mk.inj h
      rw [hargs]
      exact List.cons_ne_nil _ _
    · split at h
      · obtain ⟨-, rfl⟩ := Prod.mk.inj h
        exact List.cons_ne_nil _ _
      · cases h

/-- An absolute path is taken as it is. Another command becomes an absolute path. -/
theorem findCommand_cases {fs : FileSystem} {r r' : Request} (h : findCommand fs r = (true, r')) :
    ∃ cmd rest, r.args = cmd :: rest ∧
      (cmd.toList.head? = some '/' ∧ r' = r ∨
        cmd.toList.head? ≠ some '/' ∧ ∃ path, path.toList.head? = some '/' ∧
          r' = { r with args := path :: rest }) := by
  unfold findCommand at h
  split at h
  · cases h
  · next cmd rest hargs =>
    refine ⟨cmd, rest, hargs, ?_⟩
    split at h
    · cases h
    · next tail hcmd =>
      obtain ⟨-, rfl⟩ := Prod.mk.inj h
      exact Or.inl ⟨by rw [hcmd]; rfl, rfl⟩
    · next hrel =>
      split at h
      · next path hfind =>
        obtain ⟨-, rfl⟩ := Prod.mk.inj h
        refine Or.inr ⟨fun hhead => ?_, path, ?_, rfl⟩
        · obtain ⟨tail, htail⟩ := List.head?_eq_some_iff.mp hhead
          exact hrel tail htail
        · obtain ⟨dir, hdir, rfl⟩ := List.mem_map.mp (List.mem_of_find?_eq_some hfind)
          -- every directory of the search path is absolute
          have hslash : dir.toList.head? = some '/' := by
            simp only [findPaths, List.mem_cons, List.not_mem_nil, or_false] at hdir
            rcases hdir with rfl | rfl | rfl | rfl | rfl | rfl <;> rfl
          rw [String.toList_append, List.head?_append, hslash]
          rfl
      · cases h

/-- The lookup only completes the first argument. -/
theorem findCommand_backend {fs : FileSystem} {r : Request} :
    (findCommand fs r).2.backend = r.backend := by
  unfold findCommand
  split
  · rfl
  · split
    · rfl
    · rfl
    · split <;> rfl

end Srun
