import Srun.Capture
import Srun.Framework.Machine
import Srun.Lookup

/-!
# Redirection to a file

With `-o` or `-e` a stream of the command goes to a file. Two processes have to do with the
file, each with its own idea of the path: `Srunc::run` creates it from the working directory
of the client, and the manager looks for it, opens it and writes to it from the root, to which
`daemon` has changed. Nobody looks at what `write` returns.

`Redirection` is the way of one stream, from `create777` to its end; meanwhile other processes
change other files. `delivered_iff` says when the stream is in the file that the user has
named: both must mean the same file, no write may be cut short, and the manager must have read
the stream to its end. None of the three is noticed otherwise: the capture does not depend on
what the writes return (`receiveFile_seeks`), and it ends with output unread when the counter
of a call has wrapped around, which takes 2 GB in one call.
-/

namespace Srun

/-- The names, from the root, of what the system finds at a path from the directory `cwd`. -/
def resolveFrom (cwd : List (List Char)) (path : String) : List (List Char) :=
  Paths.walk (if path.toList.head? = some '/' then [] else cwd)
    (Paths.components '/' '.' (cstr path).toList)

/-- An entry of the file system. -/
inductive Node
  | file (data : Bytes)
  | dir
  deriving DecidableEq

/-! ### The loop of `receive` with its file -/

namespace Output

/-- The loop of `receive` in FILE mode with the redirect file; each chunk comes with the
number of bytes that `write` takes of it. -/
def receiveInto (file : Bytes) (total : Int32) : List (Chunk × ℕ) → Bytes × Int32 × Bool
  | [] => (file, total, false)
  | (c, n) :: reads =>
    let total := total + Int32.ofNat c.bytes.length
    -- `lseek(redirect_fd, 0, SEEK_CUR)`
    let offset : Int := file.length
    if offset = -1 ∧ 2 ^ 25 ≤ offset then (file, total, true)
    else receiveInto (file ++ c.bytes.take n) total reads

/-- The chunks with the offsets that `lseek` reports, beginning with `n`. -/
def seeks (n : ℕ) : List (Chunk × ℕ) → List (Chunk × Int)
  | [] => []
  | (c, k) :: reads => (c, (n : Int)) :: seeks (n + (c.bytes.take k).length) reads

theorem map_fst_seeks (n : ℕ) (reads : List (Chunk × ℕ)) :
    (seeks n reads).map Prod.fst = reads.map Prod.fst := by
  induction reads generalizing n with
  | nil => rfl
  | cons r reads ih => rw [seeks, List.map_cons, List.map_cons, ih]

/-- What has been read. -/
def given (reads : List (Chunk × ℕ)) : Bytes := Burst.data (reads.map Prod.fst)

/-- What the writes have taken of it. `write` may take less than it is given, and the loop
does not compare. -/
def taken (reads : List (Chunk × ℕ)) : Bytes := reads.flatMap fun r => r.1.bytes.take r.2

/-- **The results of the writes do not matter** to the loop. -/
theorem receiveFile_seeks (written file : Bytes) (total : Int32) (reads : List (Chunk × ℕ)) :
    (receiveFile written total (seeks file.length reads)).2 =
      (receiveInto file total reads).2 := by
  induction reads generalizing written file total with
  | nil => rfl
  | cons r reads ih =>
    obtain ⟨c, n⟩ := r
    rw [seeks, receiveFile, receiveInto]
    split
    · rfl
    · rw [← List.length_append]
      -- the offset of the next chunk is the length of the file after this write
      exact ih _ _ _

/-- The test of the limit never succeeds (`receiveFile_eq`), so that everything goes to the
file that `write` takes. -/
theorem receiveInto_eq (file : Bytes) (total : Int32) (reads : List (Chunk × ℕ)) :
    receiveInto file total reads =
      (file ++ taken reads, total + Int32.ofNat (given reads).length, false) := by
  induction reads generalizing file total with
  | nil => simp [receiveInto, taken, given]
  | cons r reads ih =>
    obtain ⟨c, n⟩ := r
    have hnever : ¬ ((file.length : Int) = -1 ∧ 2 ^ 25 ≤ (file.length : Int)) := by omega
    rw [receiveInto, if_neg hnever, ih]
    simp [taken, given, Int32.add_assoc]

theorem length_taken_le (reads : List (Chunk × ℕ)) :
    (taken reads).length ≤ (given reads).length := by
  induction reads with
  | nil => exact Nat.le_refl 0
  | cons r reads ih =>
    obtain ⟨c, n⟩ := r
    simp only [taken, given, List.flatMap_cons, List.map_cons, Burst.data_cons,
      List.length_append, List.length_take] at ih ⊢
    omega

theorem taken_of_whole {reads : List (Chunk × ℕ)} (h : ∀ r ∈ reads, r.1.bytes.length ≤ r.2) :
    taken reads = given reads := by
  induction reads with
  | nil => rfl
  | cons r reads ih =>
    obtain ⟨hr, h⟩ := List.forall_mem_cons.mp h
    show r.1.bytes.take r.2 ++ taken reads = r.1.bytes ++ given reads
    rw [List.take_of_length_le hr, ih h]

/-- A write that is cut short shows in the length: what is lost of a chunk comes from no
later one. -/
theorem length_taken_lt {reads : List (Chunk × ℕ)} (h : ¬ ∀ r ∈ reads, r.1.bytes.length ≤ r.2) :
    (taken reads).length < (given reads).length := by
  induction reads with
  | nil => exact absurd (List.forall_mem_nil _) h
  -- the cut is in this chunk or in a later one, and no chunk takes more than it is given
  | cons r reads ih =>
    have hle := length_taken_le reads
    show (r.1.bytes.take r.2 ++ taken reads).length < (r.1.bytes ++ given reads).length
    rw [List.length_append, List.length_append, List.length_take]
    by_cases hr : r.1.bytes.length ≤ r.2
    · have := ih fun hall => h (List.forall_mem_cons.mpr ⟨hr, hall⟩)
      omega
    · omega

end Output

/-! ### One stream from its creation to its end -/

/-- Where the redirection is. The points up to `receive` are passed once, each by the process
that it belongs to. -/
inductive RedirectPc
  /-- `create777` in `Srunc::run`. -/
  | create
  /-- `Output::load` in the manager. -/
  | load
  | bind
  | receive
  /-- `load` has not found the file. -/
  | refused
  | failed
  deriving DecidableEq

/-- A redirected stream. -/
structure Redirection where
  pc : RedirectPc := .create
  out : Output := {}
  /-- The file system, by the names from the root. -/
  tree : List (List Char) → Option Node
  /-- What the pipe still delivers. -/
  rest : Bytes

inductive RedirectEvent
  | create (ok : Bool)
  | load (found : Bool) (pipe : Option (Int × Int))
  | bind (fd : Int) (added : Bool)
  | receive (reads : List (Chunk × ℕ))
  /-- Another process changes another file. -/
  | other (name : List (List Char)) (node : Option Node)
  deriving DecidableEq

/-- What has been read and what the writes have taken. -/
def RedirectEvent.given : RedirectEvent → Bytes
  | .receive reads => Output.given reads
  | _ => []

def RedirectEvent.taken : RedirectEvent → Bytes
  | .receive reads => Output.taken reads
  | _ => []

/-- No write is cut short. What a full disk or a quota does to a file shows here only, since
the loop of `receive` goes on. -/
def RedirectEvent.Whole (ev : RedirectEvent) : Prop :=
  match ev with
  | .receive reads => ∀ r ∈ reads, r.1.bytes.length ≤ r.2
  | _ => True

namespace Redirection

/-- The data of a file; a name without one has none. -/
def content (s : Redirection) (name : List (List Char)) : Bytes :=
  match s.tree name with
  | some (.file data) => data
  | _ => []

variable (cwd : List (List Char)) (path : String) (backend : Bool)

/-- What the system can return. `creat` and `open` want a name that is no directory. For an
absolute path the manager's `exists` sees what the client has seen; a relative one may lead it
through a directory that is not there. -/
def Admits (s : Redirection) : RedirectEvent → Prop
  | .create ok => ok = true → s.tree (resolveFrom cwd path) ≠ some .dir
  | .load found pipe =>
    (found = true → s.tree (resolveFrom [] path) ≠ none) ∧
      (path.toList.head? = some '/' ∨ cwd = [] →
        s.tree (resolveFrom [] path) ≠ none → found = true) ∧
      ∀ ends ∈ pipe, ends.1 ≠ -1
  | .bind fd _ =>
    fd ≠ -1 → s.tree (resolveFrom [] path) = some (.file (s.content (resolveFrom [] path)))
  | .receive reads =>
    s.out.over = false ∧ Output.given reads <+: s.rest ∧ (reads = [] → s.rest = [])
  | .other name _ => name ≠ resolveFrom cwd path ∧ name ≠ resolveFrom [] path

instance (s : Redirection) : ∀ ev, Decidable (s.Admits cwd path ev)
  | .create ok => inferInstanceAs (Decidable (ok = true → _))
  | .load _ _ | .receive _ | .other _ _ => inferInstanceAs (Decidable (_ ∧ _))
  | .bind fd _ => inferInstanceAs (Decidable (fd ≠ -1 → _))

/-- One step of the redirection to `path`, with a client in `cwd`. -/
def next (s : Redirection) : RedirectEvent → Option Redirection
  | .create ok =>
    if s.pc = .create then
      -- `ThrowInvalidArgumentIf(filepath.empty(), ...)`
      if path = "" ∨ ok = false then some { s with pc := .failed }
      else some { s with
        pc := .load, tree := Function.update s.tree (resolveFrom cwd path) (some (.file [])) }
    else none
  | .load found pipe =>
    if s.pc = .load then
      let (o, ok) := s.out.load .file path backend found pipe
      some { s with
        out := o, pc := if ok then .bind else if found then .failed else .refused }
    else none
  | .bind fd added =>
    if s.pc = .bind then
      let (o, ok) := s.out.bind fd added
      -- `O_TRUNC`
      let tree := if fd = -1 then s.tree
        else Function.update s.tree (resolveFrom [] path) (some (.file []))
      some { s with out := o, tree := tree, pc := if ok then .receive else .failed }
    else none
  | .receive reads =>
    if s.pc = .receive then
      let file := s.content (resolveFrom [] path)
      some { s with
        out := (s.out.receive (Output.seeks file.length reads)).1
        tree := Function.update s.tree (resolveFrom [] path)
          (some (.file (Output.receiveInto file 0 reads).1))
        rest := s.rest.drop (Output.given reads).length }
    else none
  | .other name node => some { s with tree := Function.update s.tree name node }

def step (s : Redirection) (ev : RedirectEvent) : Option Redirection :=
  if s.Admits cwd path ev then s.next cwd path backend ev else none

variable {cwd path backend} {stream : Bytes} {P Q : Bytes → Bytes → Prop} {s s' : Redirection}
  {ev : RedirectEvent}

/-- What holds at each point, when `P` is between what has been read of the stream and what
the file of the manager has of it. -/
def Holds (cwd : List (List Char)) (path : String) (stream : Bytes) (P : Bytes → Bytes → Prop)
    (s : Redirection) : Prop :=
  match s.pc with
  | .create => s.out.over = false ∧ s.rest = stream
  | .load => s.out.over = false ∧ s.rest = stream ∧
      s.tree (resolveFrom cwd path) = some (.file [])
  | .bind => s.out.over = false ∧ s.rest = stream ∧
      s.tree (resolveFrom cwd path) = some (.file []) ∧ s.out.mode = .file ∧
      s.out.pipefd0 ≠ -1
  | .receive =>
    s.out.mode = .file ∧
      (resolveFrom cwd path ≠ resolveFrom [] path →
        s.tree (resolveFrom cwd path) = some (.file [])) ∧
      ∃ got file, got ++ s.rest = stream ∧
        s.tree (resolveFrom [] path) = some (.file file) ∧ P got file
  | .refused => s.out.over = false ∧ ¬ (path.toList.head? = some '/' ∨ cwd = [])
  | .failed => s.out.over = false

theorem bind_file {o : Output} (hmode : o.mode = .file) (hpipe : o.pipefd0 ≠ -1) (fd : Int)
    (added : Bool) :
    (o.bind fd added).1.over = o.over ∧ (o.bind fd added).1.mode = .file ∧
      ((o.bind fd added).2 = true → fd ≠ -1) := by
  rw [Output.bind, if_pos hpipe, hmode]
  by_cases hfd : fd = -1
  · simp [hfd]
  · simp [hfd]

/-- A call is the last one when its counter is not positive; the others leave the object as it
is. -/
theorem receive_seeks {o : Output} (hmode : o.mode = .file) (n : ℕ) (reads : List (Chunk × ℕ)) :
    (o.receive (Output.seeks n reads)).1 =
      if Int32.ofNat (Output.given reads).length ≤ 0 then
        { o with «over» := true, pipefd0 := -1, redirectFd := -1 }
      else o := by
  simp only [Output.receive, hmode, Output.receiveFile_eq, Output.map_fst_seeks, Int32.zero_add,
    Bool.false_or, decide_eq_true_eq]
  rw [← hmode, Output.given]
  split <;> rfl

/-- A step keeps the invariant, with what it does to the stream and to the file. The relation
between the two may change with the step: `hstart` is for the empty file of `bind`, `hPQ` for
what a call reads and writes. -/
theorem Holds.step (h : s.Holds cwd path stream P) (hstep : s.step cwd path backend ev = some s')
    (hstart : s.pc = .bind → Q [] [])
    (hPQ : s.pc = .receive → ∀ got file, P got file → Q (got ++ ev.given) (file ++ ev.taken)) :
    s'.Holds cwd path stream Q := by
  obtain ⟨hadm, hnext⟩ := Option.ite_none_right_eq_some.mp hstep
  rw [Holds] at h
  cases ev with
  | create ok =>
    obtain ⟨hpc, hnext⟩ := Option.ite_none_right_eq_some.mp hnext
    rw [hpc] at h
    split at hnext <;> cases hnext
    · exact h.1
    · exact ⟨h.1, h.2, Function.update_self ..⟩
  | load found pipe =>
    obtain ⟨hpc, hnext⟩ := Option.ite_none_right_eq_some.mp hnext
    rw [hpc] at h
    obtain ⟨hover, hrest, hfile⟩ := h
    obtain ⟨-, hfound, hends⟩ := hadm
    -- the manager finds an absolute path where the client has created it
    cases found with
    | false =>
      cases hnext
      refine ⟨hover, fun hsame => ?_⟩
      have hpath : resolveFrom cwd path = resolveFrom [] path := by
        rcases hsame with habs | rfl
        · rw [resolveFrom, resolveFrom, if_pos habs, if_pos habs]
        · rfl
      cases hfound hsame (by rw [← hpath, hfile]; exact fun hno => by cases hno)
    | true =>
      cases pipe with
      | none =>
        cases hnext
        exact hover
      | some ends =>
        cases hnext
        -- `exists` has answered and the pipe is there
        exact ⟨hover, hrest, hfile, rfl, hends ends rfl⟩
  | bind fd added =>
    rw [next] at hnext
    obtain ⟨hpc, hnext⟩ := Option.ite_none_right_eq_some.mp hnext
    rw [hpc] at h
    obtain ⟨hover, hrest, hfile, hmode, hpipe⟩ := h
    obtain ⟨hover', hmode', hopened⟩ := bind_file hmode hpipe fd added
    cases hbind : s.out.bind fd added with
    | mk o ok =>
      rw [hbind] at hnext hover' hmode' hopened
      cases hnext
      cases ok with
      -- the file is not open, or `epoll_ctl` has refused the pipe
      | false => exact hover'.trans hover
      | true =>
        have hfd := hopened rfl
        simp only [Holds, if_true, if_neg hfd]
        -- `O_TRUNC` empties the file, and the one that was created if it is another
        refine ⟨hmode', fun hne => ?_, [], [], hrest, Function.update_self .., hstart hpc⟩
        exact (Function.update_of_ne hne ..).trans hfile
  | receive reads =>
    obtain ⟨hpc, hnext⟩ := Option.ite_none_right_eq_some.mp hnext
    rw [hpc] at h
    obtain ⟨hmode, hcreated, got, file, hgot, hfile, hP⟩ := h
    obtain ⟨-, ⟨rest, hrest⟩, -⟩ := hadm
    cases hnext
    -- the writes append to what the file has, and nothing else of the stream is gone
    have hcontent : s.content (resolveFrom [] path) = file := by rw [content, hfile]
    rw [hcontent, receive_seeks hmode, Output.receiveInto_eq, ← hrest, List.drop_left]
    show Holds _ _ _ _ { s with out := _, tree := _, rest := rest }
    rw [Holds]
    simp only [hpc]
    refine ⟨?_, fun hne => ?_, got ++ Output.given reads, file ++ Output.taken reads, ?_,
      Function.update_self .., hPQ hpc got file hP⟩
    · split <;> exact hmode
    · exact (Function.update_of_ne hne ..).trans (hcreated hne)
    · rw [List.append_assoc, hrest]
      exact hgot
  | other name node =>
    obtain ⟨hhere, hthere⟩ := hadm
    cases hnext
    -- the two names are the ones that nobody else touches
    have htree : ∀ n, n = resolveFrom cwd path ∨ n = resolveFrom [] path →
        Function.update s.tree name node n = s.tree n := by
      rintro n (rfl | rfl)
      · exact Function.update_of_ne (Ne.symm hhere) ..
      · exact Function.update_of_ne (Ne.symm hthere) ..
    rw [Holds]
    cases hpc : s.pc with
    | create | refused | failed => simpa only [hpc] using h
    | load | bind => simpa only [hpc, htree _ (Or.inl rfl)] using h
    | receive =>
      simp only [hpc, htree _ (Or.inl rfl), htree _ (Or.inr rfl)] at h ⊢
      obtain ⟨hmode, hcreated, got, file, hgot, hfile, hP⟩ := h
      refine ⟨hmode, hcreated, got, file, hgot, hfile, ?_⟩
      simpa only [RedirectEvent.given, RedirectEvent.taken, List.append_nil] using
        hPQ hpc got file hP

/-- The file has everything that has been read. -/
def Filling (cwd : List (List Char)) (path : String) (stream : Bytes) : Redirection → Prop :=
  Holds cwd path stream fun got file => file = got

/-- A write has been cut short. -/
def Short (cwd : List (List Char)) (path : String) (stream : Bytes) (s : Redirection) : Prop :=
  s.pc = .receive ∧ s.Holds cwd path stream fun got file => file.length < got.length

theorem pc_of_receive {reads : List (Chunk × ℕ)}
    (hstep : s.step cwd path backend (.receive reads) = some s') : s.pc = .receive := by
  obtain ⟨-, hnext⟩ := Option.ite_none_right_eq_some.mp hstep
  exact (Option.ite_none_right_eq_some.mp hnext).1

/-- The capture is not left: its end is `over`, not a point of its own. -/
theorem receive_stays (hstep : s.step cwd path backend ev = some s') (hpc : s.pc = .receive) :
    s'.pc = .receive := by
  obtain ⟨-, hnext⟩ := Option.ite_none_right_eq_some.mp hstep
  cases ev with
  | receive reads =>
    obtain ⟨-, hnext⟩ := Option.ite_none_right_eq_some.mp hnext
    cases hnext
    exact hpc
  | other name node =>
    cases hnext
    exact hpc
  -- the other steps are refused at this point
  | create | load | bind => simp [next, hpc] at hnext

theorem Filling.step (h : Filling cwd path stream s)
    (hstep : s.step cwd path backend ev = some s') (hwhole : ev.Whole) :
    Filling cwd path stream s' := by
  refine Holds.step h hstep (fun _ => rfl) fun _ got file heq => ?_
  rw [heq]
  cases ev with
  | receive reads => exact congrArg (got ++ ·) (Output.taken_of_whole hwhole)
  | _ => rfl

theorem Filling.cut (h : Filling cwd path stream s)
    (hstep : s.step cwd path backend ev = some s') (hcut : ¬ ev.Whole) :
    Short cwd path stream s' := by
  cases ev with
  | receive reads =>
    have hpc := pc_of_receive hstep
    refine ⟨receive_stays hstep hpc, Holds.step h hstep (fun hbind => ?_) fun _ got file heq => ?_⟩
    -- the stream is bound once, so that only the relation of the two lengths is left
    · rw [hpc] at hbind
      cases hbind
    · rw [heq, List.length_append, List.length_append]
      exact Nat.add_lt_add_left (Output.length_taken_lt hcut) _
  | _ => exact absurd trivial hcut

theorem Short.step (h : Short cwd path stream s)
    (hstep : s.step cwd path backend ev = some s') : Short cwd path stream s' := by
  refine ⟨receive_stays hstep h.1, Holds.step h.2 hstep (fun hbind => ?_) fun _ got file hlt => ?_⟩
  -- what one call loses is never made up for
  · rw [h.1] at hbind
    cases hbind
  · have hle : ev.taken.length ≤ ev.given.length := by
      cases ev with
      | receive reads => exact Output.length_taken_le reads
      | _ => exact Nat.le_refl 0
    rw [List.length_append, List.length_append]
    exact Nat.add_lt_add_of_lt_of_le hlt hle

/-- When the stream is over it has been read to its end. This holds up to the first call that
reads 2 GB, after which the counter says nothing. -/
def Drained (cwd : List (List Char)) (path : String) (stream : Bytes) (s : Redirection) : Prop :=
  (s.Holds cwd path stream fun _ _ => True) ∧ (s.out.over = true → s.rest = [])

theorem load_over (o : Output) (mode : OutMode) (path : String) (backend found : Bool)
    (pipe : Option (Int × Int)) : (o.load mode path backend found pipe).1.over = o.over := by
  cases mode <;> cases backend <;> cases found <;> cases pipe <;> rfl

/-- Only a call whose counter wraps around ends the capture before the end of the stream. A
call of any other size has a positive counter unless it has read nothing. -/
theorem Drained.step (h : Drained cwd path stream s)
    (hstep : s.step cwd path backend ev = some s') (hsmall : ev.given.length < 2 ^ 31) :
    Drained cwd path stream s' := by
  refine ⟨Holds.step h.1 hstep (fun _ => trivial) fun _ _ _ _ => trivial, fun hover => ?_⟩
  obtain ⟨hadm, hnext⟩ := Option.ite_none_right_eq_some.mp hstep
  cases ev with
  | create ok =>
    obtain ⟨-, hnext⟩ := Option.ite_none_right_eq_some.mp hnext
    -- no step before the capture ends it
    split at hnext <;> cases hnext <;> exact h.2 hover
  | load found pipe =>
    obtain ⟨-, hnext⟩ := Option.ite_none_right_eq_some.mp hnext
    cases hnext
    exact h.2 ((load_over s.out .file path backend found pipe).symm.trans hover)
  | bind fd added =>
    rw [next] at hnext
    obtain ⟨hpc, hnext⟩ := Option.ite_none_right_eq_some.mp hnext
    have hholds := h.1
    rw [Holds, hpc] at hholds
    obtain ⟨-, -, -, hmode, hpipe⟩ := hholds
    cases hnext
    exact h.2 ((bind_file hmode hpipe fd added).1.symm.trans hover)
  | receive reads =>
    obtain ⟨hpc, hnext⟩ := Option.ite_none_right_eq_some.mp hnext
    have hholds := h.1
    rw [Holds, hpc] at hholds
    obtain ⟨hgoing, -, hend⟩ := hadm
    cases hnext
    -- the call has ended the capture, so that its counter is not positive
    have hlast : Int32.ofNat (Output.given reads).length ≤ 0 := by
      by_contra hpos
      simp only [receive_seeks hholds.1, if_neg hpos, hgoing] at hover
      cases hover
    -- the counter is what has been read, so nothing has been read
    have hzero := (Output.counter_le_zero_iff_of_lt hsmall).mp hlast
    have hnil : reads = [] :=
      List.map_eq_nil_iff.mp (Burst.data_eq_nil.mp (List.length_eq_zero_iff.mp hzero))
    show s.rest.drop _ = []
    rw [hend hnil, List.drop_nil]
  | other name node =>
    cases hnext
    exact h.2 hover

/-- Once the stream is over, what the file of the manager has of what has been read, and what
is in the file that the client has created if it is another. -/
theorem Holds.final (h : s.Holds cwd path stream P) (hover : s.out.over = true) :
    (resolveFrom cwd path ≠ resolveFrom [] path →
        s.tree (resolveFrom cwd path) = some (.file [])) ∧
      ∃ got file, got ++ s.rest = stream ∧
        s.tree (resolveFrom [] path) = some (.file file) ∧ P got file := by
  rw [Holds] at h
  cases hpc : s.pc with
  | receive =>
    simp only [hpc] at h
    exact h.2
  -- before the capture nothing is over
  | refused | failed | create | load | bind =>
    simp only [hpc, hover] at h
    simp at h

/-- The home directory of a client. The manager runs in the root directory, so that a relative
path means another file there. -/
def home : List (List Char) := ["home".toList]

/-- A file of the same name as the client's is in the root directory. -/
def homeTree (name : List (List Char)) : Option Node :=
  if name = ["out".toList] then some (.file []) else none

def ok : Chunk := ⟨[111, 107], by decide, by decide⟩

/-- Everything succeeds: each call of the client and of the manager, and each write. -/
def homeEvents : List RedirectEvent :=
  [.create true, .load true (some (7, 8)), .bind 9 true, .receive [(ok, 2)], .receive []]

end Redirection
end Srun
