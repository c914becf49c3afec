import Srun.Framework.Wire
import Srun.Message

/-!
# The proto3 encoding of messages

`proto/proto3/srun.proto` over the wire format: which record each field is, and
what a record does to a message that is being parsed. A scalar field equal to its
default is not written; a record of a scalar replaces the value, one of a
sub-message is merged into it, one of a repeated field appends to it; records
that the schema does not know are skipped. A `string` has to be UTF-8 text for the
parser, also `outstr` and `errstr`, which the manager fills with whatever the
command printed.

The manager is verified for any `Env`. What is assumed of protobuf where bytes
matter is said by each theorem: that a message with a field is some bytes
(`Env.WritesBytes`), that parsing gives back what was written (`Env.ParsesBack`),
and, only where the two readers are compared with the stream, that messages are
records as in proto3 (`Env.ByRecords`). `Proto3.env` meets all three, with a
configuration that has no group.
-/

namespace Srun

open Wire

namespace Proto3

/-! ### Scalars -/

/-- A signed integer as the varint of its 64-bit two's complement. -/
def wireInt (i : Int) : ℕ := (i % 2 ^ 64).toNat

theorem wireInt_lt (i : Int) : wireInt i < 2 ^ 64 := by
  unfold wireInt
  omega

@[simp] theorem ofInt_wireInt_int32 (i : Int32) : Int32.ofInt (wireInt i.toInt) = i := by
  apply Int32.toInt_inj.mp
  have h1 := i.le_toInt
  have h2 := i.toInt_lt
  rw [Int32.toInt_ofInt, wireInt]
  simp only [Int.bmod_def, Int32.size]
  omega

@[simp] theorem ofInt_wireInt_int64 (i : Int64) : Int64.ofInt (wireInt i.toInt) = i := by
  apply Int64.toInt_inj.mp
  have h1 := i.le_toInt
  have h2 := i.toInt_lt
  rw [Int64.toInt_ofInt, wireInt]
  simp only [Int.bmod_def, Int64.size]
  omega

def text (s : String) : Bytes := s.toUTF8.data.toList

/-- The text of bytes that are UTF-8. -/
def ofText (bs : Bytes) : Option String := String.fromUTF8? ⟨bs.toArray⟩

@[simp] theorem ofText_text (s : String) : ofText (text s) = some s := dif_pos s.isValidUTF8

end Proto3

/-! ### Enumerations -/

def OutMode.toInt32 : OutMode → Int32
  | .ign => 0
  | .msg => 1
  | .file => 2
  | .other n => n

def OutMode.ofInt32 (n : Int32) : OutMode :=
  if h0 : n = 0 then .ign
  else if h1 : n = 1 then .msg
  else if h2 : n = 2 then .file
  else .other ⟨n, by
    simp only [Int32.lt_iff_toInt_lt, ← Int32.toInt_inj] at *
    simp at *
    omega⟩

def Stat.toInt32 : Stat → Int32
  | .normal => 0
  | .timeout => 1
  | .abnormal => 2
  | .badargs => 3
  | .other n => n

def Stat.ofInt32 (n : Int32) : Stat :=
  if h0 : n = 0 then .normal
  else if h1 : n = 1 then .timeout
  else if h2 : n = 2 then .abnormal
  else if h3 : n = 3 then .badargs
  else .other ⟨n, by
    simp only [Int32.lt_iff_toInt_lt, ← Int32.toInt_inj] at *
    simp at *
    omega⟩

def Method.toInt32 : Method → Int32
  | .exe => 0
  | .syn => 1
  | .ack => 2
  | .list => 3
  | .stop => 4
  | .other n => n

def Method.ofInt32 (n : Int32) : Method :=
  if h0 : n = 0 then .exe
  else if h1 : n = 1 then .syn
  else if h2 : n = 2 then .ack
  else if h3 : n = 3 then .list
  else if h4 : n = 4 then .stop
  else .other ⟨n, by
    simp only [Int32.lt_iff_toInt_lt, ← Int32.toInt_inj] at *
    simp at *
    omega⟩

@[simp] theorem OutMode.ofInt32_toInt32 (m : OutMode) : ofInt32 m.toInt32 = m := by
  cases m with
  | other n =>
    obtain ⟨n, hn⟩ := n
    have h : n ≠ 0 ∧ n ≠ 1 ∧ n ≠ 2 := by
      refine ⟨?_, ?_, ?_⟩ <;> rintro rfl <;> revert hn <;> decide
    simp [toInt32, ofInt32, h]
  | _ => decide

@[simp] theorem Stat.ofInt32_toInt32 (m : Stat) : ofInt32 m.toInt32 = m := by
  cases m with
  | other n =>
    obtain ⟨n, hn⟩ := n
    have h : n ≠ 0 ∧ n ≠ 1 ∧ n ≠ 2 ∧ n ≠ 3 := by
      refine ⟨?_, ?_, ?_, ?_⟩ <;> rintro rfl <;> revert hn <;> decide
    simp [toInt32, ofInt32, h]
  | _ => decide

@[simp] theorem Method.ofInt32_toInt32 (m : Method) : ofInt32 m.toInt32 = m := by
  cases m with
  | other n =>
    obtain ⟨n, hn⟩ := n
    have h : n ≠ 0 ∧ n ≠ 1 ∧ n ≠ 2 ∧ n ≠ 3 ∧ n ≠ 4 := by
      refine ⟨?_, ?_, ?_, ?_, ?_⟩ <;> rintro rfl <;> revert hn <;> decide
    simp [toInt32, ofInt32, h]
  | _ => decide

namespace Proto3

/-! ### Fields -/

/-- A field of an integer type, by the varint of its value. -/
def intField (num n : ℕ) : List Record := if n = 0 then [] else [⟨num, .varint n⟩]

/-- A field of type `string`. -/
def textField (num : ℕ) (bs : Bytes) : List Record := if bs = [] then [] else [⟨num, .len bs⟩]

/-- A sub-message, by its records. -/
def subField (num : ℕ) (rs : List Record) : Record := ⟨num, .len (putRecords rs)⟩

/-- Parse a message into an object of its type. No field of the schemas is a group, so
groups are skipped. -/
def merge {α : Type} (set : α → Record → Option α) (a : α) (bs : Bytes) : Option α :=
  ((records bs).bind (ungroup [])).bind (·.foldlM set a)

/-! ### The messages of the schema -/

/-- A request as records. -/
def requestRecords (r : Request) : List Record :=
  r.args.map (fun s => ⟨1, .len (text s)⟩) ++ textField 2 (text r.model)
    ++ intField 3 (wireInt r.timeout.toInt) ++ textField 4 (text r.user)
    ++ textField 5 (text r.chroot) ++ intField 6 (wireInt r.outmode.toInt32.toInt)
    ++ intField 7 (wireInt r.errmode.toInt32.toInt) ++ textField 8 (text r.outfile)
    ++ textField 9 (text r.errfile) ++ intField 10 r.network.toNat ++ intField 11 r.backend.toNat
    ++ intField 12 (wireInt r.nice.toInt) ++ textField 13 (text r.memlimit)
    ++ textField 14 (text r.memswlimit) ++ r.envs.map (fun s => ⟨15, .len (text s)⟩)

/-- What a record does to a request. -/
def requestSet (r : Request) (rec : Record) : Option Request :=
  match rec with
  -- a repeated field: the element goes to the end
  | ⟨1, .len bs⟩ => (ofText bs).map fun s => { r with args := r.args ++ [s] }
  | ⟨2, .len bs⟩ => (ofText bs).map fun s => { r with model := s }
  | ⟨3, .varint n⟩ => some { r with timeout := Int32.ofInt n }
  | ⟨4, .len bs⟩ => (ofText bs).map fun s => { r with user := s }
  | ⟨5, .len bs⟩ => (ofText bs).map fun s => { r with chroot := s }
  | ⟨6, .varint n⟩ => some { r with outmode := .ofInt32 (Int32.ofInt n) }
  | ⟨7, .varint n⟩ => some { r with errmode := .ofInt32 (Int32.ofInt n) }
  | ⟨8, .len bs⟩ => (ofText bs).map fun s => { r with outfile := s }
  | ⟨9, .len bs⟩ => (ofText bs).map fun s => { r with errfile := s }
  -- a `bool` is whether the varint, cut to 64 bits, is not 0
  | ⟨10, .varint n⟩ => some { r with network := n % 2 ^ 64 ≠ 0 }
  | ⟨11, .varint n⟩ => some { r with backend := n % 2 ^ 64 ≠ 0 }
  | ⟨12, .varint n⟩ => some { r with nice := Int32.ofInt n }
  | ⟨13, .len bs⟩ => (ofText bs).map fun s => { r with memlimit := s }
  | ⟨14, .len bs⟩ => (ofText bs).map fun s => { r with memswlimit := s }
  | ⟨15, .len bs⟩ => (ofText bs).map fun s => { r with envs := r.envs ++ [s] }
  | _ => some r

def responseRecords (r : Response) : List Record :=
  intField 1 (wireInt r.stat.toInt32.toInt) ++ intField 2 (wireInt r.retval.toInt)
    ++ textField 3 r.outstr ++ textField 4 r.errstr

def responseSet (r : Response) (rec : Record) : Option Response :=
  match rec with
  | ⟨1, .varint n⟩ => some { r with stat := .ofInt32 (Int32.ofInt n) }
  | ⟨2, .varint n⟩ => some { r with retval := Int32.ofInt n }
  -- `outstr` and `errstr` are kept as bytes; the parser still checks them
  | ⟨3, .len bs⟩ => (ofText bs).map fun _ => { r with outstr := bs }
  | ⟨4, .len bs⟩ => (ofText bs).map fun _ => { r with errstr := bs }
  | _ => some r

def runprocRecords (p : Runproc) : List Record :=
  intField 1 (wireInt p.pid.toInt) ++ intField 2 (wireInt p.since.toInt)
    ++ p.request.toList.map (fun r => subField 3 (requestRecords r))

def runprocSet (p : Runproc) (rec : Record) : Option Runproc :=
  match rec with
  | ⟨1, .varint n⟩ => some { p with pid := Int32.ofInt n }
  | ⟨2, .varint n⟩ => some { p with since := Int64.ofInt n }
  | ⟨3, .len bs⟩ =>
    -- a second record of the same sub-message is merged into the first
    (merge requestSet (p.request.getD {}) bs).map fun r => { p with request := some r }
  | _ => some p

def messageRecords (m : Message) : List Record :=
  intField 1 (wireInt m.method.toInt32.toInt)
    ++ m.response.toList.map (fun r => subField 2 (responseRecords r))
    ++ m.request.toList.map (fun r => subField 3 (requestRecords r))
    ++ m.runlist.map (fun p => subField 4 (runprocRecords p))

def messageSet (m : Message) (rec : Record) : Option Message :=
  match rec with
  | ⟨1, .varint n⟩ => some { m with method := .ofInt32 (Int32.ofInt n) }
  | ⟨2, .len bs⟩ => (merge responseSet m.getResponse bs).map fun r => { m with response := some r }
  | ⟨3, .len bs⟩ => (merge requestSet m.getRequest bs).map fun r => { m with request := some r }
  | ⟨4, .len bs⟩ =>
    -- an element of a repeated field starts from the defaults
    (merge runprocSet {} bs).map fun p => { m with runlist := m.runlist ++ [p] }
  | _ => some m

/-- `SerializeToString` refuses messages of 2 GB and more. -/
def serialize (m : Message) : Option Bytes :=
  let bs := putRecords (messageRecords m)
  if bs.length < 2 ^ 31 then some bs else none

/-- `ParseFromString`. -/
def parse (bs : Bytes) : Option Message := merge messageSet {} bs

/-! ### What is written is parsed -/

section Fold

variable {α : Type} {set : α → Record → Option α} {a c : α} {num : ℕ}

theorem foldlM_append_of (b : α) {xs ys : List Record} (hx : xs.foldlM set a = some b)
    (hy : ys.foldlM set b = some c) : (xs ++ ys).foldlM set a = some c := by
  rw [List.foldlM_append, hx]
  exact hy

theorem foldlM_intField {n : ℕ} (hset : set a ⟨num, .varint n⟩ = some c) (hzero : n = 0 → a = c) :
    (intField num n).foldlM set a = some c := by
  unfold intField
  split
  · next h => rw [hzero h]; rfl
  · simp [hset]

theorem foldlM_textField {bs : Bytes} (hset : set a ⟨num, .len bs⟩ = some c)
    (hnil : bs = [] → a = c) : (textField num bs).foldlM set a = some c := by
  unfold textField
  split
  · next h => rw [hnil h]; rfl
  · simp [hset]

/-- A repeated field appends one element after the other. -/
theorem foldlM_repeated {β : Type} (upd : List β → α) {rec : β → Record} (xs : List β)
    (hset : ∀ pre x, x ∈ xs → set (upd pre) (rec x) = some (upd (pre ++ [x]))) (pre : List β) :
    (xs.map rec).foldlM set (upd pre) = some (upd (pre ++ xs)) := by
  induction xs generalizing pre with
  | nil => simp
  | cons x xs ih =>
    rw [List.map_cons, List.foldlM_cons, hset pre x List.mem_cons_self]
    have h := ih (fun pre y hy => hset pre y (List.mem_cons_of_mem _ hy)) (pre ++ [x])
    simpa using h

end Fold

theorem wireInt_int32_eq_zero {i : Int32} (h : wireInt i.toInt = 0) : i = 0 := by
  have := ofInt_wireInt_int32 i
  rw [h] at this
  exact this.symm

theorem wireInt_int64_eq_zero {i : Int64} (h : wireInt i.toInt = 0) : i = 0 := by
  have := ofInt_wireInt_int64 i
  rw [h] at this
  exact this.symm

theorem outMode_eq_ign {m : OutMode} (h : wireInt m.toInt32.toInt = 0) : m = .ign := by
  rw [← OutMode.ofInt32_toInt32 m, wireInt_int32_eq_zero h]
  rfl

theorem text_eq_nil {s : String} (h : text s = []) : s = "" := by
  have := ofText_text s
  rw [h] at this
  exact (Option.some.inj this).symm

theorem foldlM_requestRecords (r : Request) : (requestRecords r).foldlM requestSet {} = some r := by
  have hint {i : Int32} {P : Prop} (hP : i = 0 → P) : wireInt i.toInt = 0 → P :=
    fun h => hP (wireInt_int32_eq_zero h)
  have hmode {m : OutMode} {P : Prop} (hP : m = .ign → P) : wireInt m.toInt32.toInt = 0 → P :=
    fun h => hP (outMode_eq_ign h)
  have htext {s : String} {P : Prop} (hP : s = "" → P) : text s = [] → P :=
    fun h => hP (text_eq_nil h)
  obtain ⟨args, model, timeout, user, chroot, outmode, errmode, outfile, errfile, network, backend,
    nice, memlimit, memswlimit, envs⟩ := r
  unfold requestRecords
  -- The last field is peeled off first: what is parsed before it is `r` with the fields from
  -- there on at their defaults, which is what a field that is not written leaves.
  refine foldlM_append_of ⟨args, model, timeout, user, chroot, outmode, errmode, outfile, errfile,
    network, backend, nice, memlimit, memswlimit, []⟩
    ?_ (foldlM_repeated (fun envs => (⟨args, model, timeout, user, chroot, outmode, errmode,
      outfile, errfile, network, backend, nice, memlimit, memswlimit, envs⟩ : Request)) envs
      (fun _ _ _ => by simp [requestSet]) [])
  refine foldlM_append_of ⟨args, model, timeout, user, chroot, outmode, errmode, outfile, errfile,
    network, backend, nice, memlimit, "", []⟩
    ?_ (foldlM_textField (by simp [requestSet]) (htext (by rintro rfl; rfl)))
  refine foldlM_append_of ⟨args, model, timeout, user, chroot, outmode, errmode, outfile, errfile,
    network, backend, nice, "", "", []⟩
    ?_ (foldlM_textField (by simp [requestSet]) (htext (by rintro rfl; rfl)))
  refine foldlM_append_of ⟨args, model, timeout, user, chroot, outmode, errmode, outfile, errfile,
    network, backend, 0, "", "", []⟩
    ?_ (foldlM_intField (by simp [requestSet]) (hint (by rintro rfl; rfl)))
  refine foldlM_append_of ⟨args, model, timeout, user, chroot, outmode, errmode, outfile, errfile,
    network, false, 0, "", "", []⟩
    ?_ (foldlM_intField (by cases backend <;> simp [requestSet]) (by cases backend <;> simp))
  refine foldlM_append_of ⟨args, model, timeout, user, chroot, outmode, errmode, outfile, errfile,
    false, false, 0, "", "", []⟩
    ?_ (foldlM_intField (by cases network <;> simp [requestSet]) (by cases network <;> simp))
  refine foldlM_append_of ⟨args, model, timeout, user, chroot, outmode, errmode, outfile, "", false,
    false, 0, "", "", []⟩
    ?_ (foldlM_textField (by simp [requestSet]) (htext (by rintro rfl; rfl)))
  refine foldlM_append_of ⟨args, model, timeout, user, chroot, outmode, errmode, "", "", false,
    false, 0, "", "", []⟩
    ?_ (foldlM_textField (by simp [requestSet]) (htext (by rintro rfl; rfl)))
  refine foldlM_append_of ⟨args, model, timeout, user, chroot, outmode, .ign, "", "", false, false,
    0, "", "", []⟩
    ?_ (foldlM_intField (by simp [requestSet]) (hmode (by rintro rfl; rfl)))
  refine foldlM_append_of ⟨args, model, timeout, user, chroot, .ign, .ign, "", "", false, false, 0,
    "", "", []⟩
    ?_ (foldlM_intField (by simp [requestSet]) (hmode (by rintro rfl; rfl)))
  refine foldlM_append_of ⟨args, model, timeout, user, "", .ign, .ign, "", "", false, false, 0, "",
    "", []⟩
    ?_ (foldlM_textField (by simp [requestSet]) (htext (by rintro rfl; rfl)))
  refine foldlM_append_of ⟨args, model, timeout, "", "", .ign, .ign, "", "", false, false, 0, "",
    "", []⟩
    ?_ (foldlM_textField (by simp [requestSet]) (htext (by rintro rfl; rfl)))
  refine foldlM_append_of ⟨args, model, 0, "", "", .ign, .ign, "", "", false, false, 0, "", "", []⟩
    ?_ (foldlM_intField (by simp [requestSet]) (hint (by rintro rfl; rfl)))
  refine foldlM_append_of ⟨args, "", 0, "", "", .ign, .ign, "", "", false, false, 0, "", "", []⟩
    ?_ (foldlM_textField (by simp [requestSet]) (htext (by rintro rfl; rfl)))
  exact foldlM_repeated (fun args => ({ args := args } : Request)) args
    (fun _ _ _ => by simp [requestSet]) []

/-! ### Sizes -/

/-- The records of this schema: a small field number, and an integer of 64 bits or
contents of any length. -/
def Plain (r : Record) : Prop :=
  0 < r.num ∧ r.num < 16 ∧ match r.payload with
    | .varint n => n < 2 ^ 64
    | .len _ => True
    | _ => False

/-- A record that fits into a message that is not too long is valid. -/
theorem Plain.valid {r : Record} {rs : List Record} (hr : Plain r) (hmem : r ∈ rs)
    (hlen : (putRecords rs).length < 2 ^ 31) : r.Valid := by
  obtain ⟨hpos, hlt, hp⟩ := hr
  refine ⟨hpos, by omega, ?_⟩
  -- contents are bounded by the whole message, so their length is a valid prefix
  cases heq : r.payload with
  | varint n => simpa [heq] using hp
  | len bs =>
    have hle := put_length_le hmem
    have hbs : bs.length ≤ r.put.length := by
      simp only [Record.put, heq, Payload.put, List.length_append]
      omega
    simp only
    omega
  | _ => simp [heq] at hp

theorem Plain.group {r : Record} (hr : Plain r) : r.payload.group = false := by
  obtain ⟨-, -, hp⟩ := hr
  cases heq : r.payload with
  | startGroup | endGroup => simp [heq] at hp
  | _ => rfl

theorem merge_putRecords {α : Type} {set : α → Record → Option α} {a : α} {rs : List Record}
    (hp : ∀ r ∈ rs, Plain r) (hlen : (putRecords rs).length < 2 ^ 31) :
    merge set a (putRecords rs) = rs.foldlM set a := by
  have hrecords := records_eq_some_iff.mpr
    (splits_putRecords fun r hr => (hp r hr).valid hr hlen)
  rw [merge, hrecords, Option.bind_some, ungroup_eq_self fun r hr => (hp r hr).group,
    Option.bind_some]

theorem plain_intField {num n : ℕ} (hnum : 0 < num ∧ num < 16) (hn : n < 2 ^ 64) :
    ∀ r ∈ intField num n, Plain r := by
  intro r hr
  unfold intField at hr
  split at hr
  · cases hr
  · obtain rfl := List.mem_singleton.mp hr
    exact ⟨hnum.1, hnum.2, hn⟩

theorem plain_textField {num : ℕ} (bs : Bytes) (hnum : 0 < num ∧ num < 16) :
    ∀ r ∈ textField num bs, Plain r := by
  intro r hr
  unfold textField at hr
  split at hr
  · cases hr
  · obtain rfl := List.mem_singleton.mp hr
    exact ⟨hnum.1, hnum.2, trivial⟩

theorem plain_requestRecords (q : Request) : ∀ r ∈ requestRecords q, Plain r := by
  have hbool (b : Bool) : b.toNat < 2 ^ 64 := by cases b <;> decide
  have hargs (num : ℕ) (ss : List String) (hnum : 0 < num ∧ num < 16) :
      ∀ r ∈ ss.map (fun s => (⟨num, .len (text s)⟩ : Record)), Plain r := by
    intro r hr
    obtain ⟨s, -, rfl⟩ := List.mem_map.mp hr
    exact ⟨hnum.1, hnum.2, trivial⟩
  unfold requestRecords
  simp only [List.forall_mem_append]
  repeat' apply And.intro
  all_goals first
    | exact hargs _ _ (by decide)
    | exact plain_textField _ (by decide)
    | exact plain_intField (by decide) (wireInt_lt _)
    | exact plain_intField (by decide) (hbool _)

theorem plain_subField {num : ℕ} (rs : List Record) (hnum : 0 < num ∧ num < 16) :
    Plain (subField num rs) := ⟨hnum.1, hnum.2, trivial⟩

theorem plain_responseRecords (q : Response) : ∀ r ∈ responseRecords q, Plain r := by
  unfold responseRecords
  simp only [List.forall_mem_append]
  exact ⟨⟨⟨plain_intField (by decide) (wireInt_lt _), plain_intField (by decide) (wireInt_lt _)⟩,
    plain_textField _ (by decide)⟩, plain_textField _ (by decide)⟩

theorem plain_runprocRecords (p : Runproc) : ∀ r ∈ runprocRecords p, Plain r := by
  unfold runprocRecords
  simp only [List.forall_mem_append, List.forall_mem_map]
  exact ⟨⟨plain_intField (by decide) (wireInt_lt _), plain_intField (by decide) (wireInt_lt _)⟩,
    fun _ _ => plain_subField _ (by decide)⟩

theorem plain_messageRecords (m : Message) : ∀ r ∈ messageRecords m, Plain r := by
  unfold messageRecords
  simp only [List.forall_mem_append, List.forall_mem_map]
  exact ⟨⟨⟨plain_intField (by decide) (wireInt_lt _), fun _ _ => plain_subField _ (by decide)⟩,
    fun _ _ => plain_subField _ (by decide)⟩, fun _ _ => plain_subField _ (by decide)⟩

/-- The contents of a sub-message are not longer than the message. -/
theorem putRecords_length_le {num : ℕ} {rs ms : List Record} (h : subField num rs ∈ ms) :
    (putRecords rs).length ≤ (putRecords ms).length := by
  refine Nat.le_trans ?_ (put_length_le h)
  simp only [Record.put, subField, Payload.put, List.length_append]
  omega

theorem merge_requestRecords {r : Request}
    (hlen : (putRecords (requestRecords r)).length < 2 ^ 31) :
    merge requestSet {} (putRecords (requestRecords r)) = some r := by
  rw [merge_putRecords (plain_requestRecords r) hlen]
  exact foldlM_requestRecords r

/-- The outputs of a response are text. -/
def Texts (r : Response) : Prop := (ofText r.outstr).isSome ∧ (ofText r.errstr).isSome

theorem stat_eq_normal {m : Stat} (h : wireInt m.toInt32.toInt = 0) : m = .normal := by
  rw [← Stat.ofInt32_toInt32 m, wireInt_int32_eq_zero h]
  rfl

theorem method_eq_exe {m : Method} (h : wireInt m.toInt32.toInt = 0) : m = .exe := by
  rw [← Method.ofInt32_toInt32 m, wireInt_int32_eq_zero h]
  rfl

theorem foldlM_responseRecords {r : Response} (h : Texts r) :
    (responseRecords r).foldlM responseSet {} = some r := by
  obtain ⟨stat, retval, outstr, errstr⟩ := r
  obtain ⟨⟨out, hout⟩, ⟨err, herr⟩⟩ := And.intro (Option.isSome_iff_exists.mp h.1)
    (Option.isSome_iff_exists.mp h.2)
  unfold responseRecords
  refine foldlM_append_of ⟨stat, retval, outstr, []⟩ ?_
    (foldlM_textField (by simp_all [responseSet]) (by rintro rfl; rfl))
  refine foldlM_append_of ⟨stat, retval, [], []⟩ ?_
    (foldlM_textField (by simp_all [responseSet]) (by rintro rfl; rfl))
  refine foldlM_append_of ⟨stat, 0, [], []⟩
    (foldlM_intField (by simp [responseSet]) fun h => ?_)
    (foldlM_intField (by simp [responseSet]) fun h => ?_)
  · rw [show stat = _ from stat_eq_normal h]
  · rw [show retval = _ from wireInt_int32_eq_zero h]

theorem merge_responseRecords {r : Response} (h : Texts r)
    (hlen : (putRecords (responseRecords r)).length < 2 ^ 31) :
    merge responseSet {} (putRecords (responseRecords r)) = some r := by
  rw [merge_putRecords (plain_responseRecords r) hlen]
  exact foldlM_responseRecords h

/-! The sub-messages of a message are among its records. -/

theorem subField_mem_runproc {p : Runproc} {r : Request} (h : p.request = some r) :
    subField 3 (requestRecords r) ∈ runprocRecords p :=
  List.mem_append_right _ (by simp [h])

theorem subField_mem_response {m : Message} {r : Response} (h : m.response = some r) :
    subField 2 (responseRecords r) ∈ messageRecords m :=
  List.mem_append_left _ (List.mem_append_left _ (List.mem_append_right _ (by simp [h])))

theorem subField_mem_request {m : Message} {r : Request} (h : m.request = some r) :
    subField 3 (requestRecords r) ∈ messageRecords m :=
  List.mem_append_left _ (List.mem_append_right _ (by simp [h]))

theorem subField_mem_runlist {m : Message} {p : Runproc} (h : p ∈ m.runlist) :
    subField 4 (runprocRecords p) ∈ messageRecords m :=
  List.mem_append_right _ (List.mem_map.mpr ⟨p, h, rfl⟩)

theorem merge_runprocRecords {p : Runproc}
    (hlen : (putRecords (runprocRecords p)).length < 2 ^ 31) :
    merge runprocSet {} (putRecords (runprocRecords p)) = some p := by
  rw [merge_putRecords (plain_runprocRecords p) hlen]
  -- the bound on the whole message bounds the request in it
  have hsub : ∀ r, p.request = some r → (putRecords (requestRecords r)).length < 2 ^ 31 :=
    fun r hr => Nat.lt_of_le_of_lt (putRecords_length_le (subField_mem_runproc hr)) hlen
  obtain ⟨pid, since, request⟩ := p
  unfold runprocRecords
  refine foldlM_append_of ⟨pid, since, none⟩
    (foldlM_append_of ⟨pid, 0, none⟩ (foldlM_intField (by simp [runprocSet]) fun h => ?_)
      (foldlM_intField (by simp [runprocSet]) fun h => ?_)) ?_
  · rw [show pid = _ from wireInt_int32_eq_zero h]
  · rw [show since = _ from wireInt_int64_eq_zero h]
  · cases request with
    | none => rfl
    | some r => simp [runprocSet, subField, merge_requestRecords (hsub r rfl)]

theorem serialize_eq_some_iff {m : Message} {bs : Bytes} :
    serialize m = some bs ↔
      putRecords (messageRecords m) = bs ∧ (putRecords (messageRecords m)).length < 2 ^ 31 := by
  unfold serialize
  rw [Option.ite_none_right_eq_some, Option.some.injEq]
  exact and_comm

/-- **Round trip.** A message that is serialized and whose outputs are text is
parsed as it was. -/
theorem parse_serialize {m : Message} {bs : Bytes} (h : serialize m = some bs)
    (htext : ∀ r ∈ m.response, Texts r) : parse bs = some m := by
  obtain ⟨rfl, hlen⟩ := serialize_eq_some_iff.mp h
  rw [parse, merge_putRecords (plain_messageRecords m) hlen]
  -- the bound on the whole message bounds every message in it
  have hresp : ∀ r, m.response = some r → (putRecords (responseRecords r)).length < 2 ^ 31 :=
    fun r hr => Nat.lt_of_le_of_lt (putRecords_length_le (subField_mem_response hr)) hlen
  have hreq : ∀ r, m.request = some r → (putRecords (requestRecords r)).length < 2 ^ 31 :=
    fun r hr => Nat.lt_of_le_of_lt (putRecords_length_le (subField_mem_request hr)) hlen
  have hrun : ∀ p ∈ m.runlist, (putRecords (runprocRecords p)).length < 2 ^ 31 :=
    fun p hp => Nat.lt_of_le_of_lt (putRecords_length_le (subField_mem_runlist hp)) hlen
  obtain ⟨method, response, request, runlist⟩ := m
  unfold messageRecords
  refine foldlM_append_of ⟨method, response, request, []⟩
    (foldlM_append_of ⟨method, response, none, []⟩ (foldlM_append_of ⟨method, none, none, []⟩
      (foldlM_intField (by simp [messageSet]) fun h => ?_) ?_) ?_)
    (foldlM_repeated (fun ps => (⟨method, response, request, ps⟩ : Message)) runlist
      (fun pre p hp => ?_) [])
  · rw [show method = _ from method_eq_exe h]
  · cases response with
    | none => rfl
    | some r =>
      simp [messageSet, subField, Message.getResponse,
        merge_responseRecords (htext r rfl) (hresp r rfl)]
  · cases request with
    | none => rfl
    | some r => simp [messageSet, subField, Message.getRequest, merge_requestRecords (hreq r rfl)]
  · simp [messageSet, subField, merge_runprocRecords (hrun p hp)]

/-- Outputs that are not text fail the parser. -/
theorem foldlM_responseRecords_eq_none {r : Response} (h : ¬ Texts r) :
    (responseRecords r).foldlM responseSet {} = none := by
  have hfail {num : ℕ} {bs : Bytes} {a : Response} (hbs : ofText bs = none)
      (hset : responseSet a ⟨num, .len bs⟩ = none) :
        (textField num bs).foldlM responseSet a = none := by
    -- the empty text is UTF-8, so the field was written
    have hne : bs ≠ [] := by rintro rfl; exact absurd hbs (by decide)
    simp [textField, if_neg hne, hset]
  rw [responseRecords, List.foldlM_append]
  rw [Texts, not_and_or, Option.not_isSome_iff_eq_none, Option.not_isSome_iff_eq_none] at h
  rw [Option.bind_eq_bind, Option.bind_eq_none_iff]
  intro a ha
  rcases h with hout | herr
  · rw [List.foldlM_append, Option.bind_eq_bind, Option.bind_eq_some_iff] at ha
    obtain ⟨b, -, hb⟩ := ha
    rw [hfail hout (by simp [responseSet, hout])] at hb
    cases hb
  · exact hfail herr (by simp [responseSet, herr])

theorem parse_eq_none {m : Message} {bs : Bytes} {r : Response} (h : serialize m = some bs)
    (hr : m.response = some r) (htext : ¬ Texts r) : parse bs = none := by
  obtain ⟨rfl, hlen⟩ := serialize_eq_some_iff.mp h
  have hresp := Nat.lt_of_le_of_lt (putRecords_length_le (subField_mem_response hr)) hlen
  have hmethod : (intField 1 (wireInt m.method.toInt32.toInt)).foldlM messageSet {} =
      some { method := m.method } :=
    foldlM_intField (by simp [messageSet]) (fun h => by rw [method_eq_exe h])
  have hset : messageSet { method := m.method } (subField 2 (responseRecords r)) = none := by
    simp only [messageSet, subField, Message.getResponse, Option.getD_none]
    rw [merge_putRecords (plain_responseRecords r) hresp, foldlM_responseRecords_eq_none htext]
    rfl
  rw [parse, merge_putRecords (plain_messageRecords m) hlen, messageRecords]
  simp [List.foldlM_append, hr, hmethod, hset]

end Proto3

/-! ### What is assumed of protobuf -/

/-- The number of records of a message in proto3. -/
def Message.fieldCount (m : Message) : ℕ :=
  (if m.method = .exe then 0 else 1) + m.response.toList.length + m.request.toList.length
    + m.runlist.length

/-- A message with a field has a non-empty encoding. -/
def Env.WritesBytes (E : Env) : Prop :=
  ∀ ⦃m bs⦄, E.serialize m = some bs → 0 < m.fieldCount → bs ≠ []

/-- What is parsed from the encoding of a message is that message. -/
def Env.ParsesBack (E : Env) : Prop :=
  ∀ ⦃m m' bs⦄, E.serialize m = some bs → E.parse bs = some m' → m' = m

/-- A message is encoded as its records and parsed from records, one for each field or
element at least, as in proto3. -/
structure Env.ByRecords (E : Env) : Prop where
  serialize_splits {m : Message} {bs : Bytes} (h : E.serialize m = some bs) :
    ∃ rs, Splits bs rs ∧ rs.length = m.fieldCount
  parse_splits {bs : Bytes} {m : Message} (h : E.parse bs = some m) :
    ∃ rs, Splits bs rs ∧ m.fieldCount ≤ rs.length

theorem Env.ByRecords.writesBytes {E : Env} (hE : E.ByRecords) : E.WritesBytes := by
  rintro m _ h hm rfl
  obtain ⟨rs, hrs, hlen⟩ := hE.serialize_splits h
  rw [hrs.eq_nil] at hlen
  simp at hlen
  omega

namespace Proto3

theorem length_messageRecords (m : Message) : (messageRecords m).length = m.fieldCount := by
  have hmethod : (intField 1 (wireInt m.method.toInt32.toInt)).length =
      if m.method = .exe then 0 else 1 := by
    by_cases h : m.method = .exe
    · rw [if_pos h, h]; rfl
    · rw [if_neg h, intField, if_neg fun h0 => h (method_eq_exe h0)]; rfl
  simp only [messageRecords, Message.fieldCount, List.length_append, List.length_map, hmethod]

/-- A record adds at most one field. -/
theorem fieldCount_messageSet {m m' : Message} {r : Record} (h : messageSet m r = some m') :
    m'.fieldCount ≤ m.fieldCount + 1 := by
  unfold messageSet at h
  split at h
  · cases h
    simp only [Message.fieldCount]
    split <;> split <;> omega
  · obtain ⟨q, -, rfl⟩ := Option.map_eq_some_iff.mp h
    simp only [Message.fieldCount, Option.toList_some, List.length_singleton]
    omega
  · obtain ⟨q, -, rfl⟩ := Option.map_eq_some_iff.mp h
    simp only [Message.fieldCount, Option.toList_some, List.length_singleton]
    omega
  · obtain ⟨q, -, rfl⟩ := Option.map_eq_some_iff.mp h
    simp only [Message.fieldCount, List.length_append, List.length_singleton]
    omega
  · cases h
    exact Nat.le_succ _

theorem fieldCount_foldlM {rs : List Record} {m m' : Message}
    (h : rs.foldlM messageSet m = some m') : m'.fieldCount ≤ m.fieldCount + rs.length := by
  induction rs generalizing m with
  | nil => cases h; exact Nat.le_refl _
  | cons r rs ih =>
    rw [List.foldlM_cons, Option.bind_eq_bind, Option.bind_eq_some_iff] at h
    obtain ⟨a, ha, h⟩ := h
    have h1 := fieldCount_messageSet ha
    have h2 := ih h
    rw [List.length_cons]
    omega

theorem serialize_splits {m : Message} {bs : Bytes} (h : serialize m = some bs) :
    ∃ rs, Splits bs rs ∧ rs.length = m.fieldCount := by
  obtain ⟨rfl, hlen⟩ := serialize_eq_some_iff.mp h
  exact ⟨messageRecords m,
    splits_putRecords fun r hr => (plain_messageRecords m r hr).valid hr hlen,
    length_messageRecords m⟩

theorem parse_splits {bs : Bytes} {m : Message} (h : parse bs = some m) :
    ∃ rs, Splits bs rs ∧ m.fieldCount ≤ rs.length := by
  rw [parse, merge, Option.bind_eq_some_iff] at h
  obtain ⟨rs', hrs', h⟩ := h
  obtain ⟨rs, hrs, hskip⟩ := Option.bind_eq_some_iff.mp hrs'
  refine ⟨rs, records_eq_some_iff.mp hrs, ?_⟩
  -- the records in groups come on top of those that are parsed
  calc m.fieldCount ≤ rs'.length := by simpa [Message.fieldCount] using fieldCount_foldlM h
    _ ≤ rs.length := (ungroup_sublist hskip).length_le

theorem eq_of_parse_serialize {m m' : Message} {bs : Bytes} (h : serialize m = some bs)
    (h' : parse bs = some m') : m' = m := by
  -- either the outputs are text and `m` comes back, or the parser fails
  by_cases htext : ∀ r ∈ m.response, Texts r
  · rw [parse_serialize h htext] at h'
    exact (Option.some.inj h').symm
  · push Not at htext
    obtain ⟨r, hr, htext⟩ := htext
    rw [parse_eq_none h hr htext] at h'
    cases h'

/-- Protobuf's proto3 encoding, under a configuration without groups. -/
def env : Env where
  serialize := serialize
  parse := parse
  loadRequest := some

@[simp] theorem env_serialize : env.serialize = serialize := by rw [env]

@[simp] theorem env_parse : env.parse = parse := by rw [env]

theorem env_byRecords : env.ByRecords where
  serialize_splits h := by
    rw [env_serialize] at h
    exact Proto3.serialize_splits h
  parse_splits h := by
    rw [env_parse] at h
    exact Proto3.parse_splits h

theorem env_writesBytes : env.WritesBytes := env_byRecords.writesBytes

theorem env_parsesBack : env.ParsesBack := by
  intro m m' bs h h'
  rw [env_serialize] at h
  rw [env_parse] at h'
  exact eq_of_parse_serialize h h'

/-- An unknown group, with a field 1 in it, does not change the heartbeat that it is in. -/
example : parse [8, 1, 0x2b, 8, 4, 0x2c] = some { method := .syn } := by decide +kernel

/-- A request with a negative number and a text. -/
example :
    let m : Message := { request := some { args := ["ls"], timeout := -1 } }
    (serialize m).bind parse = some m := by
  decide +kernel

end Proto3
end Srun
