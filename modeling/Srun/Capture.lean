import Srun.Framework.Machine
import Srun.Output

/-!
# Capturing a stream

`Output::receive` over the whole life of a captured stream. A `Capture` is the object
together with the pipe behind it; a step is one call, made when the pipe has data or is at
its end, and carries the chunks that the reads of the call deliver. How the stream falls
into chunks and the chunks into calls is a matter of timing.

In MSG mode the content is the stream up to a cut at 8 MB, whatever the timing
(`msg_captured`). The end is recognised by a call that reads nothing, and the limit is
tested between a read and its append; neither loses a byte before the cut.

In FILE mode the limit is never reached: the test wants an offset that is both -1 and at
least 32 MB (`receiveFile_eq`). `limited_iff` says which runs stay within the limit all the
same: those that read no chunk once the file holds 32 MB. Far beyond it the counter of the
call, an `int`, wraps around; when it is then not positive (`counter_le_zero_iff`), the
capture ends with output unread.
-/

namespace Srun

namespace Burst

@[simp] theorem data_nil : data [] = [] := rfl

@[simp] theorem data_cons (c : Chunk) (b : Burst) : data (c :: b) = c.bytes ++ data b := rfl

@[simp] theorem data_append (b b' : Burst) : data (b ++ b') = data b ++ data b' :=
  List.flatMap_append

/-- A read that delivers something delivers a byte. -/
theorem data_eq_nil {b : Burst} : b.data = [] ↔ b = [] := by
  cases b with
  | nil => simp
  | cons c b => simpa using fun h => absurd c.pos (by simp [h])

end Burst

namespace Output

/-- The reads of one call with the offsets that `lseek` reports, when the redirect file is at
`n` and every write is complete. -/
def offsets (n : ℕ) : Burst → List (Chunk × Int)
  | [] => []
  | c :: b => (c, (n : Int)) :: offsets (n + c.bytes.length) b

/-- `read_total_size` and `overlimit` when the loop of `Output::receive` has ended. -/
def loopEnd (o : Output) (reads : List (Chunk × Int)) : Int32 × Bool :=
  match o.mode with
  | .msg => (receiveMsg o.str 0 (reads.map Prod.fst)).2
  | .file => (receiveFile [] 0 reads).2
  | _ => (0, false)

/-- How many of the chunks there are the loop in MSG mode reads: it breaks after the one that
it finds 8 MB with. -/
def readsMsg (str : Bytes) : List Chunk → ℕ
  | [] => 0
  | c :: cs => if 2 ^ 23 ≤ str.length then 1 else readsMsg (str ++ c.bytes) cs + 1

/-- How many of the chunks there are a call of `Output::receive` reads. The loop in FILE mode
breaks after none of them (`receiveFile_eq`), and in IGN mode nothing is read. -/
def readCount (o : Output) (reads : List (Chunk × Int)) : ℕ :=
  match o.mode with
  | .msg => readsMsg o.str (reads.map Prod.fst)
  | .file => reads.length
  | _ => 0

/-- **The counter of a call** that has read `n` bytes. It is not positive when nothing has been
read, and again from 2 GB to 4 GB, and so on. -/
theorem counter_le_zero_iff (n : ℕ) :
    Int32.ofNat n ≤ 0 ↔ n % 2 ^ 32 = 0 ∨ 2 ^ 31 ≤ n % 2 ^ 32 := by
  have hsize : (Int32.ofNat n).toInt = (n : Int).bmod (2 ^ 32) := Int32.toInt_ofNat'
  rw [Int32.le_iff_toInt_le, hsize, Int32.toInt_zero, Int.bmod_def]
  split <;> omega

/-- As long as an `int` can hold the number, the counter is positive once a byte is read. -/
theorem counter_le_zero_iff_of_lt {n : ℕ} (h : n < 2 ^ 31) : Int32.ofNat n ≤ 0 ↔ n = 0 := by
  rw [counter_le_zero_iff]
  omega

theorem map_fst_offsets (n : ℕ) (b : Burst) : (offsets n b).map Prod.fst = b := by
  induction b generalizing n with
  | nil => rfl
  | cons c b ih => rw [offsets, List.map_cons, ih]

@[simp] theorem length_offsets (n : ℕ) (b : Burst) : (offsets n b).length = b.length := by
  conv_rhs => rw [← map_fst_offsets n b, List.length_map]

/-- The loop in MSG mode either appends everything, or it reads one chunk with 8 MB in
`str` and ends. -/
theorem receiveMsg_cases (str : Bytes) (n : Int32) (b : Burst) :
    (receiveMsg str n b = (str ++ b.data, n + Int32.ofNat b.data.length, false) ∧
        readsMsg str b = b.length) ∨
      ∃ pre c post, b = pre ++ [c] ++ post ∧ 2 ^ 23 ≤ (str ++ Burst.data pre).length ∧
        readsMsg str b = (pre ++ [c]).length ∧
        receiveMsg str n b =
          (str ++ Burst.data pre, n + Int32.ofNat (Burst.data (pre ++ [c])).length, true) := by
  induction b generalizing str n with
  | nil => exact Or.inl ⟨by simp [receiveMsg], rfl⟩
  | cons c b ih =>
    rw [receiveMsg, readsMsg]
    -- the content is looked at before the chunk is appended
    split
    · next hfull =>
      exact Or.inr ⟨[], c, b, rfl, by simpa using hfull, rfl, by simp⟩
    · rcases ih (str ++ c.bytes) (n + Int32.ofNat c.bytes.length) with
        ⟨h, hreads⟩ | ⟨pre, d, post, rfl, hfull, hreads, h⟩
      · refine Or.inl ⟨h.trans ?_, by rw [hreads, List.length_cons]⟩
        simp [Int32.add_assoc]
      · refine Or.inr ⟨c :: pre, d, post, rfl, by simpa using hfull, ?_, h.trans ?_⟩
        · rw [hreads, List.cons_append, List.length_cons]
        · simp [Int32.add_assoc]

/-- The chunks that the loop in MSG mode reads of `b` are all read when there are no others. -/
theorem readsMsg_take (str : Bytes) (b : Burst) :
    readsMsg str (b.take (readsMsg str b)) = (b.take (readsMsg str b)).length := by
  induction b generalizing str with
  | nil => rfl
  | cons c b ih =>
    by_cases hfull : 2 ^ 23 ≤ str.length
    · rw [readsMsg, if_pos hfull, List.take_succ_cons, List.take_zero, readsMsg, if_pos hfull]
      rfl
    · rw [readsMsg, if_neg hfull, List.take_succ_cons, readsMsg, if_neg hfull, ih,
        List.length_cons]

/-- The loop reads the first chunk there is. -/
theorem readsMsg_pos (str : Bytes) {b : Burst} (hb : b ≠ []) : 0 < readsMsg str b := by
  cases b with
  | nil => exact absurd rfl hb
  | cons c b =>
    rw [readsMsg]
    split
    · exact Nat.one_pos
    · exact Nat.succ_pos _

/-- In MSG mode a call that does not come to 8 MB appends all that it reads. -/
theorem receive_msg_of_le {o : Output} {b : Burst} (hmode : o.mode = .msg) (hne : b ≠ [])
    (hle : (o.str ++ b.data).length ≤ 2 ^ 23) :
    (o.receive (offsets 0 b)).1 = { o with str := o.str ++ b.data } := by
  rcases receiveMsg_cases o.str 0 b with ⟨hall, -⟩ | ⟨pre, c, post, rfl, hfull, -, -⟩
  · have hcount : ¬ Int32.ofNat b.data.length ≤ 0 := by
      rw [List.length_append] at hle
      rw [counter_le_zero_iff_of_lt (by omega), List.length_eq_zero_iff, Burst.data_eq_nil]
      exact hne
    simp [receive, hmode, map_fst_offsets, hall, hcount]
  · -- the chunk at which the loop would break is not empty
    have hc := c.pos
    simp only [Burst.data_append, List.length_append, Burst.data_cons] at hle hfull
    omega

/-- In MSG mode a call that reads nothing ends the capture. -/
theorem receive_msg_nil {o : Output} (hmode : o.mode = .msg) :
    (o.receive []).1 = { o with «over» := true, pipefd0 := -1, redirectFd := -1 } := by
  simp [receive, hmode, receiveMsg]

/-- One append goes over 8 MB by less than a buffer. -/
theorem length_receiveMsg_lt {str : Bytes} (h : str.length < 2 ^ 23 + 1024) (n : Int32)
    (b : Burst) :
    (receiveMsg str n b).1.length < 2 ^ 23 + 1024 := by
  induction b generalizing str n with
  | nil => exact h
  | cons c b ih =>
    rw [receiveMsg]
    split
    · exact h
    · next hroom =>
      apply ih
      have hle := c.le
      rw [List.length_append]
      omega

/-- The test in FILE mode never succeeds: the loop writes everything it reads. -/
theorem receiveFile_eq (w : Bytes) (n : Int32) (reads : List (Chunk × Int)) :
    receiveFile w n reads =
      (w ++ Burst.data (reads.map Prod.fst),
        n + Int32.ofNat (Burst.data (reads.map Prod.fst)).length, false) := by
  induction reads generalizing w n with
  | nil => simp [receiveFile]
  | cons r reads ih =>
    obtain ⟨c, offset⟩ := r
    have hnever : ¬ (offset = -1 ∧ 2 ^ 25 ≤ offset) := by omega
    rw [receiveFile, if_neg hnever, ih]
    simp [Int32.add_assoc]

end Output

/-- One call of `Output::receive`: what its reads deliver, and whether the last of them
returned 0, the end of the stream, and not -1. -/
structure ReceiveCall where
  reads : Burst
  eof : Bool
  deriving DecidableEq

/-- The capture of a stream. -/
structure Capture where
  out : Output
  /-- What has been read from the pipe. -/
  reads : Burst := []
  /-- What the last call has read of it. -/
  call : Burst := []
  /-- What the pipe still delivers. -/
  rest : Bytes
  /-- The last read has returned 0. -/
  ended : Bool := false
  /-- What the redirect file holds; `O_TRUNC` has emptied it. -/
  file : Bytes := []
  /-- `read_total_size` at the end of the last call. -/
  total : Int32 := 0
  deriving DecidableEq

namespace Capture

/-- An object that has captured nothing yet, and the stream of its command. -/
def start (o : Output) (mode : OutMode) (stream : Bytes) : Capture where
  out := { o with mode := mode, str := [], «over» := false }
  rest := stream

/-- The reads of a call with the offsets of the redirect file. -/
def readsOf (s : Capture) (c : ReceiveCall) : List (Chunk × Int) :=
  Output.offsets s.file.length c.reads

/-- The calls that can happen. The pipe is polled until `over`; it has data or is at its
end. -/
structure Readable (s : Capture) (c : ReceiveCall) : Prop where
  polled : s.out.over = false
  pre : c.reads.data <+: s.rest
  /-- The loop makes all of the reads. -/
  whole : s.out.readCount (s.readsOf c) = c.reads.length
  available : c.reads = [] → c.eof = true
  eof : c.eof = true → (s.out.loopEnd (s.readsOf c)).2 = false ∧ c.reads.data = s.rest

instance (s : Capture) (c : ReceiveCall) : Decidable (s.Readable c) :=
  decidable_of_iff
    (s.out.over = false ∧ c.reads.data <+: s.rest ∧
      s.out.readCount (s.readsOf c) = c.reads.length ∧ (c.reads = [] → c.eof = true) ∧
      (c.eof = true → (s.out.loopEnd (s.readsOf c)).2 = false ∧ c.reads.data = s.rest))
    ⟨fun ⟨h1, h2, h3, h4, h5⟩ => ⟨h1, h2, h3, h4, h5⟩,
      fun h => ⟨h.polled, h.pre, h.whole, h.available, h.eof⟩⟩

/-- The capture after a call. -/
def after (s : Capture) (c : ReceiveCall) : Capture where
  out := (s.out.receive (s.readsOf c)).1
  reads := s.reads ++ c.reads
  call := c.reads
  rest := s.rest.drop c.reads.data.length
  ended := c.eof
  file := s.file ++ (s.out.receive (s.readsOf c)).2
  total := (s.out.loopEnd (s.readsOf c)).1

/-- One call of `Output::receive`. -/
def step (s : Capture) (c : ReceiveCall) : Option Capture :=
  if s.Readable c then some (s.after c) else none

variable {o : Output} {stream : Bytes} {s s' : Capture} {c : ReceiveCall}
  {calls : List ReceiveCall}

theorem step_eq_some : s.step c = some s' ↔ s.Readable c ∧ s.after c = s' := by
  rw [step, Option.ite_none_right_eq_some, Option.some_inj]

/-- What has been read and what is left make up the stream. -/
theorem Readable.parts (h : s.Readable c) :
    (s.after c).reads.data ++ (s.after c).rest = s.reads.data ++ s.rest := by
  obtain ⟨post, hpost⟩ := h.pre
  simp [after, ← hpost]

/-! ### MSG mode -/

/-- What holds at any time of the stream `stream`, when `got` has been read from it, `str` is
the content, and the current call has read `call` bytes and counted `size`. -/
structure Faithful (stream got str : Bytes) (call : ℕ) (size : Int32) : Prop where
  stream : got <+: stream
  /-- Only the end of what has been read may be missing, and only after 8 MB. -/
  cut : ∃ dropped, got = str ++ dropped ∧ (dropped ≠ [] → 2 ^ 23 ≤ str.length)
  small : str.length < 2 ^ 23 + 1024
  /-- The counter has not wrapped around. -/
  size : size.toInt = call

/-- The capture between two calls. -/
structure Capturing (stream : Bytes) (s : Capture) : Prop where
  mode : s.out.mode = .msg
  stream : s.reads.data ++ s.rest = stream
  small : s.out.str.length < 2 ^ 23 + 1024
  total : s.total.toInt = s.call.data.length
  going : s.out.over = false → s.out.str = s.reads.data
  final : s.out.over = true →
    (s.out.str = s.reads.data ∧ s.rest = [] ∧ s.ended = true) ∨
      2 ^ 23 ≤ s.out.str.length ∧ ∃ c : Chunk, s.reads.data = s.out.str ++ c.bytes

theorem Capturing.start (o : Output) (stream : Bytes) :
    Capturing stream (start o .msg stream) := by
  constructor <;> simp [Capture.start]

/-- `Output::receive` in MSG mode. -/
theorem receive_msg (hmode : s.out.mode = .msg) :
    s.out.receive (s.readsOf c) =
      if (Output.receiveMsg s.out.str 0 c.reads).2.2 ||
          (Output.receiveMsg s.out.str 0 c.reads).2.1 ≤ 0 then
        ({ s.out with
            str := (Output.receiveMsg s.out.str 0 c.reads).1, «over» := true, pipefd0 := -1
            redirectFd := -1 }, [])
      else ({ s.out with str := (Output.receiveMsg s.out.str 0 c.reads).1 }, []) := by
  simp only [Output.receive, hmode, readsOf, Output.map_fst_offsets]

theorem loopEnd_msg (hmode : s.out.mode = .msg) :
    s.out.loopEnd (s.readsOf c) = (Output.receiveMsg s.out.str 0 c.reads).2 := by
  simp only [Output.loopEnd, hmode, readsOf, Output.map_fst_offsets]

theorem readCount_msg (hmode : s.out.mode = .msg) :
    s.out.readCount (s.readsOf c) = Output.readsMsg s.out.str c.reads := by
  simp only [Output.readCount, hmode, readsOf, Output.map_fst_offsets]

/-- A call in MSG mode: it takes all that it reads, or it drops one chunk and is the last
one, or it reads nothing and is the last one. -/
theorem Readable.msg_cases (h : s.Readable c) (hmode : s.out.mode = .msg)
    (hsmall : s.out.str.length < 2 ^ 23 + 1024) :
    (c.reads ≠ [] ∧ (s.after c).out = { s.out with str := s.out.str ++ c.reads.data } ∧
        (s.after c).total = Int32.ofNat c.reads.data.length) ∨
      (c.reads = [] ∧ (s.after c).total = 0 ∧
        (s.after c).out = { s.out with «over» := true, pipefd0 := -1, redirectFd := -1 }) ∨
      ∃ pre d, c.reads = pre ++ [d] ∧ 2 ^ 23 ≤ (s.out.str ++ Burst.data pre).length ∧
        (s.after c).total = Int32.ofNat c.reads.data.length ∧
        (s.after c).out =
          { s.out with
            str := s.out.str ++ Burst.data pre, «over» := true, pipefd0 := -1
            redirectFd := -1 } := by
  have hwhole := h.whole
  rw [readCount_msg hmode] at hwhole
  have hroom := Output.length_receiveMsg_lt hsmall 0 c.reads
  rcases Output.receiveMsg_cases s.out.str 0 c.reads with
    ⟨hloop, -⟩ | ⟨pre, d, post, hreads, hfull, hcount, hloop⟩
  · by_cases hnil : c.reads = []
    · refine Or.inr (Or.inl ⟨hnil, ?_⟩)
      simp [after, receive_msg hmode, loopEnd_msg hmode, hnil, Output.receiveMsg]
    · refine Or.inl ⟨hnil, ?_⟩
      rw [hloop, List.length_append] at hroom
      -- a chunk is not empty, so the counter is positive and the capture goes on
      have hpos : ¬ Int32.ofNat c.reads.data.length ≤ 0 := by
        rw [Output.counter_le_zero_iff_of_lt (by omega), List.length_eq_zero_iff]
        exact fun h => hnil (Burst.data_eq_nil.mp h)
      simp [after, receive_msg hmode, loopEnd_msg hmode, hloop, if_neg hpos]
  · -- the chunk over the limit is the last one that is read
    obtain rfl : post = [] := by
      have hlength := congrArg List.length hreads
      rw [← hwhole, hcount] at hlength
      simp only [List.length_append] at hlength
      exact List.length_eq_zero_iff.mp (by omega)
    rw [List.append_nil] at hreads
    refine Or.inr (Or.inr ⟨pre, d, hreads, hfull, ?_⟩)
    rw [hreads] at hloop
    simp [after, receive_msg hmode, loopEnd_msg hmode, hloop, hreads]

theorem Capturing.step (h : Capturing stream s) (hread : s.Readable c) :
    Capturing stream (s.after c) := by
  have hstr := h.going hread.polled
  have hstream := hread.parts.trans h.stream
  have hsmall : (s.after c).out.str.length < 2 ^ 23 + 1024 := by
    have := Output.length_receiveMsg_lt h.small 0 c.reads
    simp only [after, receive_msg h.mode]
    split <;> exact this
  have hreads : (s.after c).reads.data = s.reads.data ++ c.reads.data := Burst.data_append _ _
  have hcall : (s.after c).call = c.reads := rfl
  rcases hread.msg_cases h.mode h.small with ⟨hne, hout, htotal⟩ | ⟨hnil, htotal, hout⟩ |
    ⟨pre, d, hcut, hfull, htotal, hout⟩
  · -- everything has been appended
    have hgoing : (s.after c).out.over = false := by rw [hout]; exact hread.polled
    have hdata : (s.after c).out.str = (s.after c).reads.data := by rw [hout, hreads, hstr]
    refine ⟨by rw [hout]; exact h.mode, hstream, hsmall, ?_, fun _ => hdata, ?_⟩
    · rw [hdata, hreads, List.length_append] at hsmall
      rw [htotal, hcall]
      exact Int32.toInt_ofNat_of_lt (by omega)
    · intro hover
      rw [hgoing] at hover
      cases hover
  · -- nothing has been read: this is the end of the stream
    have hdata : (s.after c).out.str = (s.after c).reads.data := by
      rw [hout, hreads, hnil, hstr, Burst.data_nil, List.append_nil]
    have heof := hread.available hnil
    refine ⟨by rw [hout]; exact h.mode, hstream, hsmall, ?_, fun _ => hdata, fun _ => ?_⟩
    · rw [htotal, hcall, hnil]
      rfl
    · refine Or.inl ⟨hdata, ?_, heof⟩
      simp [after, (hread.eof heof).2]
  · -- the last chunk has been dropped, with 8 MB in `str`
    have hdata : (s.after c).reads.data = (s.after c).out.str ++ d.bytes := by
      rw [hout, hreads, hcut, ← hstr]
      simp
    refine ⟨by rw [hout]; exact h.mode, hstream, hsmall, ?_, ?_, fun _ => Or.inr ⟨?_, d, hdata⟩⟩
    · have hle := d.le
      have hpre : (s.out.str ++ Burst.data pre).length < 2 ^ 23 + 1024 := by
        rw [hout] at hsmall
        exact hsmall
      rw [htotal, hcall]
      apply Int32.toInt_ofNat_of_lt
      rw [hcut]
      simp only [Burst.data_append, Burst.data_cons, Burst.data_nil, List.length_append,
        List.length_nil] at hpre ⊢
      omega
    · rw [hout]
      intro hover
      cases hover
    · rw [hout]
      exact hfull

/-- The loop of a further call, after any of its reads: of the chunks `b` it has read as many
as it has not broken before. -/
theorem Capturing.faithful (h : Capturing stream s) (hgoing : s.out.over = false) {b : Burst}
    (hb : b.data <+: s.rest) :
    Faithful stream
      (s.reads.data ++ Burst.data (b.take (Output.readsMsg s.out.str b)))
      (Output.receiveMsg s.out.str 0 b).1
      (Burst.data (b.take (Output.readsMsg s.out.str b))).length
      (Output.receiveMsg s.out.str 0 b).2.1 := by
  have hsmall := Output.length_receiveMsg_lt h.small 0 b
  have hpre : ∀ pre post : Burst, b = pre ++ post → s.reads.data ++ pre.data <+: stream := by
    rintro pre post rfl
    rw [← h.stream]
    exact (List.prefix_append_right_inj _).mpr
      ((Burst.data_append pre post ▸ List.prefix_append _ _).trans hb)
  have hstr := h.going hgoing
  rcases Output.receiveMsg_cases s.out.str 0 b with
    ⟨hloop, hcount⟩ | ⟨pre, d, post, rfl, hfull, hcount, hloop⟩
  · -- every chunk has been appended
    rw [hloop] at hsmall ⊢
    rw [hcount, List.take_length]
    refine ⟨hpre b [] (List.append_nil b).symm, ⟨[], ?_, fun hne => absurd rfl hne⟩, hsmall, ?_⟩
    · rw [hstr, List.append_nil]
    · rw [List.length_append] at hsmall
      rw [Int32.zero_add]
      exact Int32.toInt_ofNat_of_lt (by omega)
  · -- `d` has been read and dropped
    rw [hloop] at hsmall ⊢
    rw [hcount, List.take_left]
    refine ⟨hpre _ post rfl, ⟨d.bytes, ?_, fun _ => hfull⟩, hsmall, ?_⟩
    · simp [hstr]
    · have hle := d.le
      rw [Int32.zero_add]
      apply Int32.toInt_ofNat_of_lt
      simp only [Burst.data_append, Burst.data_cons, Burst.data_nil, List.length_append,
        List.length_nil] at hsmall ⊢
      omega

/-- **Capture in MSG mode.** However the stream is cut into chunks and calls: the content is
a prefix of it, and all of what has been read but for a chunk that is dropped with 8 MB
captured; `over` means that the whole stream has been captured or that it is longer than
8 MB; and the counter is the number of bytes that the call has read, also in the middle of a
call, so that it never leaves the range of an `int`. -/
theorem msg_captured (hrun : Machine.exec step (start o .msg stream) calls = some s) :
    Faithful stream s.reads.data s.out.str s.call.data.length s.total ∧
      (s.out.over = true → s.out.str = stream ∧ s.ended = true ∨ 2 ^ 23 < stream.length) ∧
      (stream.length ≤ 2 ^ 23 → s.out.str ++ s.rest = stream) ∧
      ∀ b : Burst, s.out.over = false → b.data <+: s.rest →
        Faithful stream
          (s.reads.data ++ Burst.data (b.take (Output.readsMsg s.out.str b)))
          (Output.receiveMsg s.out.str 0 b).1
          (Burst.data (b.take (Output.readsMsg s.out.str b))).length
          (Output.receiveMsg s.out.str 0 b).2.1 := by
  have h : Capturing stream s := by
    refine Machine.exec_invariant ?_ (Capturing.start o stream) hrun
    intro s c s' h hstep
    obtain ⟨hread, rfl⟩ := step_eq_some.mp hstep
    exact h.step hread
  have hpre : s.reads.data <+: stream := ⟨s.rest, h.stream⟩
  have hlong : ∀ d : Chunk, 2 ^ 23 ≤ s.out.str.length → s.reads.data = s.out.str ++ d.bytes →
      2 ^ 23 < stream.length := by
    intro d hfull hdata
    have hle := hpre.length_le
    have hpos := d.pos
    rw [hdata, List.length_append] at hle
    omega
  cases hover : s.out.over with
  | false =>
    -- the capture goes on, and nothing has been dropped
    have hstr := h.going hover
    refine ⟨⟨hpre, ⟨[], by simp [hstr], fun hne => absurd rfl hne⟩, h.small, h.total⟩, ?_, ?_, ?_⟩
    · intro hover'
      cases hover'
    · intro _
      rw [hstr, h.stream]
    · intro b _ hb
      exact h.faithful hover hb
  | true =>
    -- it is over: at the end of the stream, or with a chunk dropped
    rcases h.final hover with ⟨hstr, hrest, hended⟩ | ⟨hfull, d, hdata⟩
    · have hall : s.out.str = stream := by
        rw [hstr, ← h.stream, hrest, List.append_nil]
      refine ⟨⟨hpre, ⟨[], by simp [hstr], fun hne => absurd rfl hne⟩, h.small, h.total⟩,
        fun _ => Or.inl ⟨hall, hended⟩, fun _ => ?_, ?_⟩
      · rw [hrest, List.append_nil, hall]
      · intro b hgoing
        cases hgoing
    · refine ⟨⟨hpre, ⟨d.bytes, hdata, fun _ => hfull⟩, h.small, h.total⟩,
        fun _ => Or.inr (hlong d hfull hdata), fun hle => ?_, ?_⟩
      · exact absurd hle (Nat.not_le.mpr (hlong d hfull hdata))
      · intro b hgoing
        cases hgoing

/-- A command that prints three bytes and ends. -/
theorem msg_captured_hi :
    ∃ s, Machine.exec step (start {} .msg [104, 105, 10])
        [⟨[⟨[104, 105], by decide, by decide⟩], false⟩, ⟨[⟨[10], by decide, by decide⟩], true⟩,
          ⟨[], true⟩] = some s ∧
      s.out.over = true ∧ s.out.str ++ s.rest = [104, 105, 10] := by
  obtain ⟨s, hrun, hover⟩ := Machine.exec_of_any (P := fun s : Capture => s.out.over)
    (show (Machine.exec step (start {} .msg [104, 105, 10])
        [⟨[⟨[104, 105], by decide, by decide⟩], false⟩, ⟨[⟨[10], by decide, by decide⟩], true⟩,
          ⟨[], true⟩]).any (fun s => s.out.over) = true by decide +kernel)
  exact ⟨s, hrun, hover, (msg_captured hrun).2.2.1 (by decide)⟩

/-! ### FILE mode -/

/-- The bound on the redirect file: `ends` says that a chunk which is read with 32 MB in the
file, that is, after so many bytes, ends the capture. -/
structure Limited (s : Capture) : Prop where
  file : s.file.length ≤ 2 ^ 25 + 1024
  ends : 2 ^ 25 ≤ (Burst.data s.reads.dropLast).length → s.out.over = true
  /-- The counter has not wrapped around. -/
  total : s.total.toInt = s.call.data.length

/-- The call reads no chunk after 32 MB. -/
def Within (s : Capture) (c : ReceiveCall) : Prop :=
  c.reads = [] ∨ (s.reads.data ++ Burst.data c.reads.dropLast).length < 2 ^ 25

/-- The redirect file holds everything that has been read. -/
structure Filing (s : Capture) : Prop where
  mode : s.out.mode = .file
  file : s.file = s.reads.data

/-- `Output::receive` in FILE mode: everything that is read is written. The call is the last
one when its counter is not positive. -/
theorem receive_file (hmode : s.out.mode = .file) :
    s.out.receive (s.readsOf c) =
      if Int32.ofNat c.reads.data.length ≤ 0 then
        ({ s.out with «over» := true, pipefd0 := -1, redirectFd := -1 }, c.reads.data)
      else (s.out, c.reads.data) := by
  simp only [Output.receive, hmode, readsOf, Output.receiveFile_eq, Output.map_fst_offsets,
    List.nil_append, Int32.zero_add, Bool.false_or, decide_eq_true_eq]
  rw [← hmode]

theorem loopEnd_file (hmode : s.out.mode = .file) :
    s.out.loopEnd (s.readsOf c) = (Int32.ofNat c.reads.data.length, false) := by
  simp [Output.loopEnd, hmode, readsOf, Output.receiveFile_eq, Output.map_fst_offsets]

theorem readCount_file (hmode : s.out.mode = .file) :
    s.out.readCount (s.readsOf c) = c.reads.length := by
  rw [Output.readCount, hmode]
  exact Output.length_offsets ..

/-- **Every burst can be delivered.** While the capture is polled and the pipe delivers the
chunks `b`, there is a call that reads the first of them, as many as the loop does not break
before; at the end of the stream there is one that reads nothing. -/
theorem exists_readable (hmode : s.out.mode = .msg ∨ s.out.mode = .file)
    (hgoing : s.out.over = false) {b : Burst} (hb : b.data <+: s.rest) :
    (b ≠ [] → ∃ n, 0 < n ∧ s.Readable ⟨b.take n, false⟩) ∧
      (s.rest = [] → s.Readable ⟨[], true⟩) := by
  have hpre : ∀ n, Burst.data (b.take n) <+: s.rest := fun n => by
    refine List.IsPrefix.trans ?_ hb
    conv_rhs => rw [← List.take_append_drop n b, Burst.data_append]
    exact List.prefix_append ..
  -- a call that delivers something is readable if its loop reads it
  have hread : ∀ n, b.take n ≠ [] → s.out.readCount (s.readsOf ⟨b.take n, false⟩) =
      (b.take n).length → s.Readable ⟨b.take n, false⟩ := fun n hne hwhole =>
    ⟨hgoing, hpre n, hwhole, fun h => absurd h hne, fun h => by cases h⟩
  rcases hmode with hmode | hmode
  · refine ⟨fun hne => ?_, fun hrest => ⟨hgoing, List.nil_prefix, ?_, fun _ => rfl, fun _ => ?_⟩⟩
    · have hpos := Output.readsMsg_pos s.out.str hne
      refine ⟨_, hpos, hread _ (fun h => ?_) ?_⟩
      · exact (List.take_eq_nil_iff.mp h).elim (fun h0 => hpos.ne' h0) hne
      · rw [readCount_msg hmode]
        exact Output.readsMsg_take s.out.str b
    · rw [readCount_msg hmode]
      rfl
    · rw [loopEnd_msg hmode]
      exact ⟨rfl, hrest.symm⟩
  · refine ⟨fun hne => ⟨b.length, List.length_pos_iff.mpr hne, ?_⟩, fun hrest =>
      ⟨hgoing, List.nil_prefix, readCount_file hmode, fun _ => rfl, fun _ => ?_⟩⟩
    · exact hread _ (by rwa [List.take_length]) (readCount_file hmode)
    · rw [loopEnd_file hmode]
      exact ⟨rfl, hrest.symm⟩

/-- What a call in FILE mode leaves. -/
theorem after_file (hmode : s.out.mode = .file) :
    (s.after c).out.mode = .file ∧ (s.after c).file = s.file ++ c.reads.data ∧
      (s.after c).total = Int32.ofNat c.reads.data.length ∧
      ((s.after c).out.over = true ↔
        s.out.over = true ∨ Int32.ofNat c.reads.data.length ≤ 0) := by
  have hreceive := receive_file (c := c) hmode
  rw [after, hreceive, loopEnd_file hmode]
  split
  · next hlast => exact ⟨hmode, rfl, rfl, iff_of_true rfl (Or.inr hlast)⟩
  · next hgoing => exact ⟨hmode, rfl, rfl, (or_iff_left hgoing).symm⟩

theorem Filing.step (h : Filing s) : Filing (s.after c) := by
  obtain ⟨hmode, hfile, -, -⟩ := after_file (c := c) h.mode
  refine ⟨hmode, hfile.trans ?_⟩
  rw [h.file]
  exact (Burst.data_append ..).symm

/-- One call keeps the bound exactly when it reads no chunk after 32 MB. -/
theorem Filing.limited_after_iff (h : Filing s) (hlim : Limited s) (hread : s.Readable c) :
    Limited (s.after c) ↔ Within s c := by
  obtain ⟨-, hfile, htotal, hover⟩ := after_file (c := c) h.mode
  have hcall : (s.after c).call = c.reads := rfl
  by_cases hnil : c.reads = []
  · -- a call that reads nothing ends the capture and writes nothing
    rw [hnil] at hfile hover htotal hcall
    refine iff_of_true ⟨?_, fun _ => hover.mpr (Or.inr (by decide)), ?_⟩ (Or.inl hnil)
    · rw [hfile, Burst.data_nil, List.append_nil]
      exact hlim.file
    · rw [htotal, hcall]
      rfl
  · have hlast : (s.after c).reads.dropLast = s.reads ++ c.reads.dropLast :=
      List.dropLast_append_of_ne_nil hnil
    have hfile : (s.after c).file = s.reads.data ++ c.reads.data := by rw [hfile, h.file]
    have hsplit : c.reads.data =
        Burst.data c.reads.dropLast ++ (c.reads.getLast hnil).bytes := by
      conv_lhs => rw [← List.dropLast_concat_getLast hnil]
      simp
    have hlength := congrArg List.length hsplit
    rw [List.length_append] at hlength
    constructor
    · intro hafter
      have hsmall := hafter.file
      have hpos : c.reads.data.length ≠ 0 := fun h0 =>
        hnil (Burst.data_eq_nil.mp (List.length_eq_zero_iff.mp h0))
      rw [hfile, List.length_append] at hsmall
      refine Or.inr (Nat.lt_of_not_le fun hlate => ?_)
      -- with what the file may hold, nothing but an empty call sets `over`
      rcases hover.mp (hafter.ends (by rw [hlast, Burst.data_append]; exact hlate)) with ho | hle
      · cases hread.polled.symm.trans ho
      · exact hpos ((Output.counter_le_zero_iff_of_lt (by omega)).mp hle)
    · rintro (hnil' | hroom)
      · exact absurd hnil' hnil
      · -- the last chunk may go over 32 MB, by no more than a buffer
        have hle := (c.reads.getLast hnil).le
        rw [List.length_append] at hroom
        refine ⟨?_, fun hlate => ?_, ?_⟩
        · rw [hfile, List.length_append]
          omega
        · rw [hlast, Burst.data_append, List.length_append] at hlate
          omega
        · rw [htotal, hcall]
          exact Int32.toInt_ofNat_of_lt (by omega)

/-- **Capture in FILE mode.** A run stays within the limit of 32 MB, ends the capture beyond
it and keeps the counter in the range of an `int` if and only if no chunk is read after
32 MB. -/
theorem limited_iff (hrun : Machine.exec step (start o .file stream) calls = some s) :
    Machine.Always step Limited (start o .file stream) calls ↔
      Machine.StepsMeet step Within (start o .file stream) calls := by
  refine Machine.always_iff_stepsMeet (I := Filing) (W := fun _ _ => True) ?_ ?_
    ⟨rfl, rfl⟩ ⟨?_, ?_, ?_⟩ (.of_forall fun _ _ => trivial) hrun
  · intro s c s' h _ hstep
    obtain ⟨-, rfl⟩ := step_eq_some.mp hstep
    exact h.step
  · intro s c s' h hlim _ hstep
    obtain ⟨hread, rfl⟩ := step_eq_some.mp hstep
    exact h.limited_after_iff hlim hread
  · simp [start]
  · simp [start]
  · simp [start]

/-- A command that prints three bytes and ends stays within the limit. -/
theorem limited_iff_hi :
    Machine.Always step Limited (start {} .file [104, 105, 10])
      [⟨[⟨[104, 105], by decide, by decide⟩], false⟩, ⟨[⟨[10], by decide, by decide⟩], true⟩,
        ⟨[], true⟩] := by
  obtain ⟨s, hrun, -⟩ := Machine.exec_of_any (P := fun _ : Capture => true)
    (show (Machine.exec step (start {} .file [104, 105, 10])
        [⟨[⟨[104, 105], by decide, by decide⟩], false⟩, ⟨[⟨[10], by decide, by decide⟩], true⟩,
          ⟨[], true⟩]).any (fun _ => true) = true by decide +kernel)
  refine (limited_iff hrun).mpr ?_
  simp [Machine.StepsMeet, Within, start, step_eq_some, after]

/-- A burst that one call reads goes to the redirect file, of whatever length it is, and the
counter decides whether the capture ends with it. -/
theorem exec_burst {b : Burst} (hb : b ≠ []) :
    ∃ s, Machine.exec step (start {} .file b.data) [⟨b, false⟩] = some s ∧
      s.file = b.data ∧ s.call = b ∧ s.total = Int32.ofNat b.data.length ∧
      (s.out.over = true ↔ Int32.ofNat b.data.length ≤ 0) := by
  have hmode : (start {} .file b.data).out.mode = .file := rfl
  have hread : (start {} .file b.data).Readable ⟨b, false⟩ := by
    refine ⟨rfl, List.prefix_refl _, readCount_file hmode, fun h => absurd h hb, ?_⟩
    intro h
    cases h
  obtain ⟨-, hfile, htotal, hover⟩ := after_file (c := ⟨b, false⟩) hmode
  exact ⟨_, Machine.exec_cons_eq_some.mpr ⟨_, step_eq_some.mpr ⟨hread, rfl⟩, rfl⟩, hfile, rfl,
    htotal, hover.trans (or_iff_right fun h => by cases h)⟩

/-- A full buffer of zero bytes. -/
def fullChunk : Chunk where
  bytes := List.replicate 1024 0
  pos := by rw [List.length_replicate]; decide
  le := by rw [List.length_replicate]

theorem length_data_replicate (n : ℕ) :
    (Burst.data (List.replicate n fullChunk)).length = n * 1024 := by
  induction n with
  | zero => rw [List.replicate_zero, Burst.data_nil, List.length_nil, Nat.zero_mul]
  | succ n ih =>
    have hfull : fullChunk.bytes.length = 1024 := List.length_replicate
    rw [List.replicate_succ, Burst.data_cons, List.length_append, ih, hfull]
    omega

/-- A command that writes as fast as the manager reads, two buffers more than 32 MB: one call
passes all of it on, the file goes over its limit and the capture does not end. -/
theorem not_limited :
    ∃ s, Machine.exec step (start {} .file (Burst.data (List.replicate (2 ^ 15 + 2) fullChunk)))
        [⟨List.replicate (2 ^ 15 + 2) fullChunk, false⟩] = some s ∧
      2 ^ 25 + 1024 < s.file.length ∧ s.out.over = false ∧ ¬ Limited s := by
  have hlength : (Burst.data (List.replicate (2 ^ 15 + 2) fullChunk)).length = 2 ^ 25 + 2048 := by
    rw [length_data_replicate]
    norm_num
  obtain ⟨s, hrun, hfile, -, -, hover⟩ :=
    exec_burst (b := List.replicate (2 ^ 15 + 2) fullChunk) fun h => by
      rw [h] at hlength
      cases hlength
  rw [hlength, Output.counter_le_zero_iff_of_lt (by norm_num)] at hover
  have hlong : 2 ^ 25 + 1024 < s.file.length := by
    rw [hfile, hlength]
    norm_num
  refine ⟨s, hrun, hlong, Bool.eq_false_iff.mpr fun hend => ?_, fun hlim => ?_⟩
  · exact absurd (hover.mp hend) (by norm_num)
  · exact absurd hlim.file (Nat.not_le.mpr hlong)

/-- With 2 GB in one call the counter is -2^31: it has wrapped around, and the capture ends
whatever the command has still to say. -/
theorem exec_burst_overflow :
    ∃ s, Machine.exec step (start {} .file (Burst.data (List.replicate (2 ^ 21) fullChunk)))
        [⟨List.replicate (2 ^ 21) fullChunk, false⟩] = some s ∧
      s.call.data.length = 2 ^ 31 ∧ s.total.toInt = -2 ^ 31 ∧ s.out.over = true := by
  have hlength : (Burst.data (List.replicate (2 ^ 21) fullChunk)).length = 2 ^ 31 := by
    rw [length_data_replicate]
    norm_num
  obtain ⟨s, hrun, -, hcall, htotal, hover⟩ :=
    exec_burst (b := List.replicate (2 ^ 21) fullChunk) fun h => by
      rw [h] at hlength
      cases hlength
  rw [hlength] at htotal hover
  refine ⟨s, hrun, by rw [hcall, hlength], by rw [htotal]; decide, ?_⟩
  rw [hover, Output.counter_le_zero_iff]
  norm_num

end Capture

end Srun
