import Srun.CommandLine

/-!
# Pids as texts

A pid is written down as a text three times: as the name of a registry file, in a line of
`srunctl list`, and among the words of `srunctl stop`; and `to_string` makes the path again at
which a manager looks for a command that it is told to stop. Between them the text is read by
`atoi`. `atoi_toText` says that this gives the pid back.

What `list` prints is a text, and whoever reads it takes it line by line. An argument is
printed as it is, with its newlines, so an entry may be several lines, of which only the first
one begins with a pid. `firstColumns_listText` says what all the first columns are, and
`stop_listed_iff` when `stop` makes the listed pids of them.
-/

namespace Srun

/-- `to_string` and `operator<<` of an `int`. -/
def toText (n : Int32) : String := toString n.toInt

/-- The registry file of a command. -/
def registryPath (pid : Int32) : String := tmpfs ++ "/" ++ toText pid

/-- A file name without its last extension; `.` and `..` have none. The names of pids have no
dot, so that nothing of them is cut off. -/
def stem (name : List Char) : List Char :=
  if name = ['.'] ∨ name = ['.', '.'] ∨ '.' ∉ name then name
  else (name.reverse.dropWhile (· ≠ '.')).tail.reverse

/-- `basename` of Boost, for a path that does not end in a slash. -/
def basename (path : String) : String :=
  String.ofList (stem (path.toList.reverse.takeWhile (· ≠ '/')).reverse)

/-- The pid that LIST gives for a registry file. -/
def pidOf (path : String) : Int32 := atoi (basename path)

namespace Srunctl

/-- `time_diff`: hours, minutes and seconds, each as an `int` and without leading zeros. -/
def timeDiff (since now : Int64) : String :=
  let diff := now - since
  toText (diff / 60 / 60).toInt32 ++ ":" ++ toText (diff / 60 % 60).toInt32 ++ ":" ++
    toText (diff % 60).toInt32

/-- What `main` prints for an entry of LIST, up to the `endl`. The arguments stand in it as they
are, up to their first zero. -/
def listLine (now : Int64) (proc : Runproc) : String :=
  let request := proc.request.getD {}
  let flag : Bool → String := fun b => if b then "1" else "0"
  toText proc.pid ++ "\t" ++ timeDiff proc.since now ++ "\t" ++ flag request.network ++ "\t" ++
    flag request.backend ++ "\t" ++ toText request.timeout ++ "\t" ++
    String.join (request.args.map fun arg => cstr arg ++ " ")

/-- The line above the entries. -/
def listHeader : String := "PID\tRUNTIME\tNETWORK\tBACKEND\tTIMEOUT\tCMD"

/-- What `srunctl list` prints: the header, and each entry with its `endl`. -/
def listText (now : Int64) (runlist : List Runproc) : String :=
  listHeader ++ "\n" ++ String.join (runlist.map fun proc => listLine now proc ++ "\n")

end Srunctl

/-! ### Numbers -/

theorem strtolDigits_eq {cs : List Char} (h : ∀ c ∈ cs, c.isDigit = true) (acc : ℕ) :
    strtolDigits acc cs = Nat.ofDigitChars 10 cs acc := by
  induction cs generalizing acc with
  | nil => rfl
  | cons c cs ih =>
    obtain ⟨hc, hcs⟩ := List.forall_mem_cons.mp h
    rw [strtolDigits, if_pos hc, ih hcs, Nat.ofDigitChars_cons, Nat.mul_comm acc]

theorem isDigit_of_mem_toDigits {n : ℕ} {c : Char} (h : c ∈ Nat.toDigits 10 n) :
    c.isDigit = true :=
  Nat.isDigit_of_mem_toDigits (by decide) (by decide) h

theorem strtolDigits_toDigits (n : ℕ) : strtolDigits 0 (Nat.toDigits 10 n) = n := by
  rw [strtolDigits_eq fun c hc => isDigit_of_mem_toDigits hc, Nat.ofDigitChars_ten_toDigits]

/-- What a number is written as: its digits, behind a sign if it is negative. -/
theorem toList_toString (n : Int) : (toString n).toList =
    if 0 ≤ n then Nat.toDigits 10 n.toNat else '-' :: Nat.toDigits 10 (-n).toNat := by
  rw [Int.toString_eq_repr, Int.repr_eq_if]
  split
  · exact Nat.toList_repr
  · rw [String.toList_append, Nat.toList_repr]
    rfl

theorem ne_of_isDigit {c : Char} (h : c.isDigit = true) :
    c ≠ '-' ∧ c ≠ '+' ∧ c ≠ '/' ∧ c ≠ '.' ∧ c ≠ '\t' ∧ c ≠ '\n' := by
  refine ⟨?_, ?_, ?_, ?_, ?_, ?_⟩ <;> rintro rfl <;> cases h

/-- No digit is a blank, so `strtol` skips nothing of what `to_string` writes. -/
theorem not_blank_of_isDigit {c : Char} (h : c.isDigit = true) :
    (c = ' ' || ('\t' ≤ c && c ≤ '\r')) = false := by
  have hge : 48 ≤ c.toNat := (Char.isDigit_iff_toNat.mp h).1
  have hspace : c ≠ ' ' := by
    rintro rfl
    cases h
  have hlast : ¬ c ≤ '\r' := fun hle => by
    have hle : c.toNat ≤ 13 := hle
    omega
  simp [hspace, hlast]

/-- `strtol` on digits. -/
theorem strtol_toDigits {n : ℕ} (h : n < 2 ^ 63) : strtol (Nat.toDigits 10 n) = n := by
  -- the first character is a digit: no blank and no sign
  have hdigit : ∀ c ∈ Nat.toDigits 10 n, c.isDigit = true := fun c hc => isDigit_of_mem_toDigits hc
  have hvalue := strtolDigits_toDigits n
  rcases hcs : Nat.toDigits 10 n with _ | ⟨c, cs⟩
  · exact absurd hcs Nat.toDigits_ne_nil
  rw [hcs] at hdigit hvalue
  have hc := hdigit c List.mem_cons_self
  rw [strtol, List.dropWhile_cons_of_neg (by rw [not_blank_of_isDigit hc]; decide)]
  split
  · next heq => exact absurd (List.cons.inj heq).1 (ne_of_isDigit hc).1
  · next heq => exact absurd (List.cons.inj heq).1 (ne_of_isDigit hc).2.1
  · rw [hvalue]
    omega

/-- `strtol` reads what `to_string` has written. -/
theorem strtol_toString {n : Int} (hlow : -2 ^ 63 ≤ n) (hhigh : n < 2 ^ 63) :
    strtol (toString n).toList = n := by
  rw [toList_toString]
  split
  · rw [strtol_toDigits (by omega)]
    omega
  · have hdash : ∀ cs, strtol ('-' :: cs) = max (-(strtolDigits 0 cs : Int)) (-2 ^ 63) :=
      fun _ => rfl
    rw [hdash, strtolDigits_toDigits]
    omega

/-- **Round trip of a number.** A pid is the same after it has been a text, negative ones
included. -/
theorem atoi_toText (n : Int32) : atoi (toText n) = n := by
  rw [atoi, toText, strtol_toString (by have := n.le_toInt; omega) (by have := n.toInt_lt; omega),
    Int32.ofInt_toInt]

/-! ### Paths -/

/-- What a number is written with. -/
theorem mem_toText {n : Int32} {c : Char} (h : c ∈ (toText n).toList) :
    c.isDigit = true ∨ c = '-' := by
  rw [toText, toList_toString] at h
  split at h
  · exact Or.inl (isDigit_of_mem_toDigits h)
  · rcases List.mem_cons.mp h with rfl | h
    · exact Or.inr rfl
    · exact Or.inl (isDigit_of_mem_toDigits h)

theorem ne_of_mem_toText {n : Int32} {c : Char} (h : c ∈ (toText n).toList) :
    c ≠ '/' ∧ c ≠ '.' ∧ c ≠ '\t' ∧ c ≠ '\n' := by
  rcases mem_toText h with hdigit | rfl
  · exact (ne_of_isDigit hdigit).2.2
  · decide

theorem toText_injective : Function.Injective toText := fun n m h => by
  rw [← atoi_toText n, h, atoi_toText m]

theorem registryPath_injective : Function.Injective registryPath := fun _ _ h =>
  toText_injective (String.append_right_inj _ |>.mp h)

/-- The file of a pid is named after it. -/
theorem basename_registryPath (pid : Int32) : basename (registryPath pid) = toText pid := by
  have hslash : ∀ c ∈ (toText pid).toList.reverse, (decide (c ≠ '/')) = true := fun c hc =>
    decide_eq_true (ne_of_mem_toText (List.mem_reverse.mp hc)).1
  have hname : (registryPath pid).toList.reverse.takeWhile (· ≠ '/') =
      (toText pid).toList.reverse := by
    rw [registryPath, String.toList_append, String.toList_append, List.reverse_append,
      List.reverse_append, List.takeWhile_append_of_pos hslash]
    exact List.append_nil _
  -- nothing is an extension
  have hdot : '.' ∉ (toText pid).toList := fun hmem => (ne_of_mem_toText hmem).2.1 rfl
  rw [basename, hname, List.reverse_reverse, stem, if_pos (Or.inr (Or.inr hdot)),
    String.ofList_toList]

theorem pidOf_registryPath (pid : Int32) : pidOf (registryPath pid) = pid := by
  rw [pidOf, basename_registryPath, atoi_toText]

namespace Srunctl

/-- The lines of a text, each of which is complete. What follows the last newline is none. -/
def linesOf (text : String) : List String :=
  ((text.toList.splitOn '\n').dropLast).map String.ofList

/-- The first column of a line. -/
def firstColumn (line : String) : String := String.ofList (line.toList.takeWhile (· ≠ '\t'))

/-- The first columns of what `list` prints, below its header. -/
def firstColumns (text : String) : List String := (linesOf text).tail.map firstColumn

/-- The further lines that an entry takes because of newlines in its arguments. -/
def furtherLines (now : Int64) (proc : Runproc) : List String :=
  ((listLine now proc).toList.splitOn '\n').tail.map String.ofList

theorem firstColumn_pid (pid : Int32) (rest : List Char) :
    firstColumn (String.ofList ((toText pid).toList ++ '\t' :: rest)) = toText pid := by
  have htab : ∀ c ∈ (toText pid).toList, (decide (c ≠ '\t')) = true := fun c hc =>
    decide_eq_true (ne_of_mem_toText hc).2.2.1
  rw [firstColumn, String.toList_ofList, List.takeWhile_append_of_pos htab,
    List.takeWhile_cons_of_neg (by decide), List.append_nil, String.ofList_toList]

/-- What is printed for an entry begins with the pid and a tab. -/
theorem exists_listLine (now : Int64) (proc : Runproc) :
    ∃ rest, (listLine now proc).toList = (toText proc.pid).toList ++ '\t' :: rest := by
  simp only [listLine, String.toList_append, List.append_assoc]
  exact ⟨_, rfl⟩

/-- What stands before a text on its first line stands before that line. -/
theorem splitOn_append {xs : List Char} (h : '\n' ∉ xs) (ys : List Char) :
    (xs ++ ys).splitOn '\n' = (ys.splitOn '\n').modifyHead (xs ++ ·) := by
  induction xs with
  | nil => exact (congrFun List.modifyHead_id _).symm
  | cons x xs ih =>
    have hne : ¬ (x == '\n') = true := fun heq => h (beq_iff_eq.mp heq ▸ List.mem_cons_self)
    have htail := ih fun hmem => h (List.mem_cons_of_mem x hmem)
    rw [List.cons_append, List.splitOn_cons_eq_if_modifyHead, if_neg hne, htail,
      List.modifyHead_modifyHead]
    rfl

/-- The first columns of an entry: its pid, and those of its further lines. -/
theorem firstColumns_listLine (now : Int64) (proc : Runproc) :
    ((listLine now proc).toList.splitOn '\n').map (fun line => firstColumn (String.ofList line)) =
      toText proc.pid :: (furtherLines now proc).map firstColumn := by
  obtain ⟨rest, hrest⟩ := exists_listLine now proc
  -- the pid and its tab stand on the first of the lines
  have hpid : '\n' ∉ (toText proc.pid).toList ++ ['\t'] := fun hmem => by
    rcases List.mem_append.mp hmem with hmem | hmem
    · exact (ne_of_mem_toText hmem).2.2.2 rfl
    · exact absurd (List.mem_singleton.mp hmem) (by decide)
  have hsplit := splitOn_append hpid rest
  rw [List.append_assoc, List.singleton_append, ← hrest] at hsplit
  obtain ⟨first, lines, hlines⟩ := List.exists_cons_of_ne_nil (List.splitOn_ne_nil '\n' rest)
  rw [hlines, List.modifyHead_cons, List.append_assoc, List.singleton_append] at hsplit
  rw [furtherLines, hsplit, List.map_cons, firstColumn_pid, List.tail_cons, List.map_map]
  rfl

/-- What `list` prints, line by line. -/
theorem splitOn_listText (now : Int64) (runlist : List Runproc) :
    (listText now runlist).toList.splitOn '\n' =
      listHeader.toList ::
        (runlist.flatMap (fun proc => (listLine now proc).toList.splitOn '\n') ++ [[]]) := by
  have hentries : ((runlist.map fun proc => listLine now proc ++ "\n").flatMap
      String.toList).splitOn '\n' =
      runlist.flatMap (fun proc => (listLine now proc).toList.splitOn '\n') ++ [[]] := by
    induction runlist with
    | nil => exact List.splitOn_nil _
    | cons proc runlist ih =>
      rw [List.map_cons, List.flatMap_cons, String.toList_append, List.append_assoc,
        show ("\n" : String).toList = ['\n'] from rfl, List.singleton_append,
        List.splitOn_append_cons_self, ih, List.flatMap_cons, List.append_assoc]
  -- the header is one line, and each entry ends with a newline of its own
  have hheader : '\n' ∉ listHeader.toList := by decide
  rw [listText, String.toList_append, String.toList_append, String.toList_join, List.append_assoc,
    show ("\n" : String).toList = ['\n'] from rfl, List.singleton_append,
    List.splitOn_append_cons_self_of_not_mem hheader, hentries]

/-- **What the first columns are.** For each entry its pid, and behind it what the further lines
of the entry begin with. -/
theorem firstColumns_listText (now : Int64) (runlist : List Runproc) :
    firstColumns (listText now runlist) = runlist.flatMap fun proc =>
      toText proc.pid :: (furtherLines now proc).map firstColumn := by
  rw [firstColumns, linesOf, splitOn_listText, ← List.cons_append, List.dropLast_concat,
    List.map_cons, List.tail_cons, List.map_map, List.map_flatMap]
  exact List.flatMap_congr fun proc _ => firstColumns_listLine now proc

/-- Without newlines an entry is one line. -/
theorem furtherLines_eq_nil {now : Int64} {proc : Runproc}
    (h : '\n' ∉ (listLine now proc).toList) : furtherLines now proc = [] := by
  rw [furtherLines, List.splitOn_eq_singleton h]
  rfl

/-- What LIST answers for the registry file of a command: the pid of its path, the time of its
last change, and the request in it. -/
def listed (f : Int32 × Int64 × Message) : Runproc :=
  Manager.runprocOf (pidOf (registryPath f.1)).toInt f.2.1 f.2.2

theorem pid_listed (f : Int32 × Int64 × Message) : (listed f).pid = f.1 := by
  rw [listed, pidOf_registryPath, Manager.runprocOf, Int32.ofInt_toInt]

theorem le_length_flatMap_cons {α β : Type} (f : α → β) (g : α → List β) (l : List α) :
    l.length ≤ (l.flatMap fun a => f a :: g a).length := by
  induction l with
  | nil => exact Nat.zero_le _
  | cons a l ih =>
    rw [List.flatMap_cons, List.length_append, List.length_cons, List.length_cons]
    omega

/-- A list with something put behind its elements is the same only if that is nothing. -/
theorem flatMap_cons_eq_map_iff {α β : Type} {f : α → β} {g : α → List β} {l : List α} :
    l.flatMap (fun a => f a :: g a) = l.map f ↔ ∀ a ∈ l, g a = [] := by
  induction l with
  | nil => exact iff_of_true rfl (List.forall_mem_nil _)
  | cons a l ih =>
    rw [List.flatMap_cons, List.map_cons, List.cons_append, List.cons.injEq, List.forall_mem_cons,
      ← ih]
    constructor
    · rintro ⟨-, htail⟩
      -- there is no room for it
      have hlength := congrArg List.length htail
      rw [List.length_append, List.length_map] at hlength
      have hle := le_length_flatMap_cons f g l
      have hnil : g a = [] := List.eq_nil_of_length_eq_zero (by omega)
      rw [hnil, List.nil_append] at htail
      exact ⟨hnil, htail⟩
    · rintro ⟨hnil, htail⟩
      rw [hnil, List.nil_append]
      exact ⟨rfl, htail⟩

/-- The pids that `stop` makes of the first columns. It drops what `atoi` does not take for a
positive number, which the pids of the entries survive. -/
theorem filter_firstColumns (now : Int64) {files : List (Int32 × Int64 × Message)}
    (hpos : ∀ f ∈ files, 0 < f.1) :
    ((firstColumns (listText now (files.map listed))).map atoi).filter (0 < ·) =
      files.flatMap fun f => f.1 ::
        ((furtherLines now (listed f)).map fun line => atoi (firstColumn line)).filter (0 < ·) := by
  rw [firstColumns_listText, List.flatMap_map, List.map_flatMap, List.filter_flatMap]
  refine List.flatMap_congr fun f hf => ?_
  have hkeep : decide (0 < f.1) = true := decide_eq_true (hpos f hf)
  rw [pid_listed, List.map_cons, atoi_toText, List.filter_cons_of_pos (by exact hkeep),
    List.map_map]
  rfl

/-- **What `list` shows, `stop` takes.** Of the registry files of some commands LIST makes
entries, and `srunctl list` prints them. The first columns of what it prints, given to
`srunctl stop`, are the pids of these commands again, unless a further line of an entry begins
with a positive number too; and `to_string` makes of each pid the path of its file and of no
other one. -/
theorem stop_listed_iff (now : Int64) {files : List (Int32 × Int64 × Message)} (hne : files ≠ [])
    (hpos : ∀ f ∈ files, 0 < f.1) :
    (invocation ("stop" :: firstColumns (listText now (files.map listed))) =
        some (.stop (files.map (·.1)), false) ↔
      ∀ f ∈ files, ∀ line ∈ furtherLines now (listed f), ¬ 0 < atoi (firstColumn line)) ∧
    ∀ pid, registryPath pid ∈ files.map (fun f => registryPath f.1) ↔
      pid ∈ files.map (·.1) := by
  constructor
  -- `stop` without a word would print the usage
  · have hwords : firstColumns (listText now (files.map listed)) ≠ [] := by
      obtain ⟨f, files, rfl⟩ := List.exists_cons_of_ne_nil hne
      rw [firstColumns_listText]
      exact List.cons_ne_nil _ _
    rw [invocation, if_neg (by decide), if_pos rfl, if_neg hwords, filter_firstColumns now hpos]
    have hcall : ∀ pids pids' : List Int32,
        some (Call.stop pids, false) = some (.stop pids', false) ↔ pids = pids' := fun pids pids' =>
      ⟨fun h => by cases h; rfl, fun h => by rw [h]⟩
    rw [hcall, flatMap_cons_eq_map_iff]
    simp only [List.filter_eq_nil_iff, List.forall_mem_map, decide_eq_true_eq]
  -- two pids have two paths
  · intro pid
    have hmap : files.map (fun f => registryPath f.1) = (files.map (·.1)).map registryPath := by
      rw [List.map_map]
      rfl
    rw [hmap, List.mem_map_of_injective registryPath_injective]

/-- Two commands are running. -/
theorem stop_listed_iff_two :
    invocation ("stop" :: firstColumns (listText 3661
      ([((100 : Int32), (0 : Int64), Proc.lsMessage), (7, 60, Proc.lsMessage)].map listed))) =
      some (.stop [100, 7], false) :=
  (stop_listed_iff 3661 (List.cons_ne_nil _ _) (by decide)).1.mpr fun f hf line hline => by
    have hnone : furtherLines 3661 (listed f) = [] := by
      refine furtherLines_eq_nil ?_
      simp only [List.mem_cons, List.not_mem_nil, or_false] at hf
      rcases hf with rfl | rfl <;> decide +kernel
    rw [hnone] at hline
    cases hline

-- an argument with a newline and a number behind it
example : invocation ("stop" :: firstColumns (listText 3661
    [listed (100, 0, { request := some { args := ["/bin/echo", "a\n42"] } })])) =
    some (.stop [100, 42], false) := by
  decide +kernel

end Srunctl
end Srun
