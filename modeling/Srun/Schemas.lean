import Srun.Proto3

/-!
# The two schemas

`proto/proto2/srun.proto` and `proto/proto3/srun.proto` have the same messages with the same
fields and numbers. They differ in what is written, and in what is accepted.

An object of a generated class knows of each scalar field whether it has been set. A proto2
serializer writes the fields that have been set, a proto3 serializer those that are not zero
(`Message.written`). A proto3 parser refuses strings that are no UTF-8 text; a proto2 parser
refuses a message with a required field missing, and leaves a number that the schema does
not name out of the field.

`exchange_iff` says when a message written under one schema is understood under the other.
From proto2 to proto3 this is a matter of text. In the other direction the zero of a required
field is not on the wire, among them the method EXE, and the parser refuses the message.

Strings are bytes here, since the parsers differ in what they take for one. `records_ofMessage`
connects this with `Proto3`, where the strings of a request are text.
-/

namespace Srun

open Wire Proto3

/-- The `syntax` of a schema. -/
inductive Schema
  | proto2
  | proto3
  deriving DecidableEq

namespace Schema

/-- `message Request`. -/
structure Request where
  args : List Bytes := []
  model : Option Bytes := none
  timeout : Option Int32 := none
  user : Option Bytes := none
  chroot : Option Bytes := none
  outmode : Option OutMode := none
  errmode : Option OutMode := none
  outfile : Option Bytes := none
  errfile : Option Bytes := none
  network : Option Bool := none
  backend : Option Bool := none
  nice : Option Int32 := none
  memlimit : Option Bytes := none
  memswlimit : Option Bytes := none
  envs : List Bytes := []
  deriving DecidableEq

/-- `message Response`; proto2 requires `stat`. -/
structure Response where
  stat : Option Stat := none
  retval : Option Int32 := none
  outstr : Option Bytes := none
  errstr : Option Bytes := none
  deriving DecidableEq

/-- `message Runproc`; proto2 requires `pid`. -/
structure Runproc where
  pid : Option Int32 := none
  since : Option Int64 := none
  request : Option Request := none
  deriving DecidableEq

/-- `message Message`; proto2 requires `method`. -/
structure Message where
  method : Option Method := none
  response : Option Response := none
  request : Option Request := none
  runlist : List Runproc := []
  deriving DecidableEq

end Schema

/-- The schema has a name for the number. -/
def OutMode.named : OutMode → Bool
  | .other _ => false
  | _ => true

def Stat.named : Stat → Bool
  | .other _ => false
  | _ => true

def Method.named : Method → Bool
  | .other _ => false
  | _ => true

namespace Schema

/-! ### Writing -/

/-- The record of a field that has been set. -/
def field {α : Type} (num : ℕ) (enc : α → Payload) (v : Option α) : List Record :=
  v.toList.map fun a => ⟨num, enc a⟩

/-- An integer. -/
def int (i : Int) : Payload := .varint (wireInt i)

def requestRecords (r : Request) : List Record :=
  r.args.map (fun s => ⟨1, .len s⟩) ++ field 2 .len r.model
    ++ field 3 (fun i => int i.toInt) r.timeout ++ field 4 .len r.user ++ field 5 .len r.chroot
    ++ field 6 (fun m => int m.toInt32.toInt) r.outmode
    ++ field 7 (fun m => int m.toInt32.toInt) r.errmode ++ field 8 .len r.outfile
    ++ field 9 .len r.errfile ++ field 10 (fun b => .varint b.toNat) r.network
    ++ field 11 (fun b => .varint b.toNat) r.backend ++ field 12 (fun i => int i.toInt) r.nice
    ++ field 13 .len r.memlimit ++ field 14 .len r.memswlimit
    ++ r.envs.map (fun s => ⟨15, .len s⟩)

def responseRecords (r : Response) : List Record :=
  field 1 (fun m => int m.toInt32.toInt) r.stat ++ field 2 (fun i => int i.toInt) r.retval
    ++ field 3 .len r.outstr ++ field 4 .len r.errstr

def runprocRecords (p : Runproc) : List Record :=
  field 1 (fun i => int i.toInt) p.pid ++ field 2 (fun i => int i.toInt) p.since
    ++ p.request.toList.map (fun r => subField 3 (requestRecords r))

def messageRecords (m : Message) : List Record :=
  field 1 (fun m => int m.toInt32.toInt) m.method
    ++ m.response.toList.map (fun r => subField 2 (responseRecords r))
    ++ m.request.toList.map (fun r => subField 3 (requestRecords r))
    ++ m.runlist.map (fun p => subField 4 (runprocRecords p))

/-- A field that is not zero. -/
def nonzero {α : Type} [DecidableEq α] (zero : α) (v : Option α) : Option α :=
  v.filter (· ≠ zero)

/-- The part of an object that is written. -/
def Request.written : Schema → Request → Request
  | .proto2, r => r
  | .proto3, r =>
    { r with
      model := nonzero [] r.model
      timeout := nonzero 0 r.timeout
      user := nonzero [] r.user
      chroot := nonzero [] r.chroot
      outmode := nonzero .ign r.outmode
      errmode := nonzero .ign r.errmode
      outfile := nonzero [] r.outfile
      errfile := nonzero [] r.errfile
      network := nonzero false r.network
      backend := nonzero false r.backend
      nice := nonzero 0 r.nice
      memlimit := nonzero [] r.memlimit
      memswlimit := nonzero [] r.memswlimit }

def Response.written : Schema → Response → Response
  | .proto2, r => r
  | .proto3, r =>
    { stat := nonzero .normal r.stat
      retval := nonzero 0 r.retval
      outstr := nonzero [] r.outstr
      errstr := nonzero [] r.errstr }

def Runproc.written : Schema → Runproc → Runproc
  | .proto2, p => p
  | .proto3, p =>
    { pid := nonzero 0 p.pid
      since := nonzero 0 p.since
      request := p.request.map (Request.written .proto3) }

def Message.written : Schema → Message → Message
  | .proto2, m => m
  | .proto3, m =>
    { method := nonzero .exe m.method
      response := m.response.map (Response.written .proto3)
      request := m.request.map (Request.written .proto3)
      runlist := m.runlist.map (Runproc.written .proto3) }

/-- `SerializeToString`, which refuses messages of 2 GB and more. -/
def serialize (q : Schema) (m : Message) : Option Bytes :=
  let bs := putRecords (messageRecords (m.written q))
  if bs.length < 2 ^ 31 then some bs else none

/-! ### Parsing -/

/-- The bytes may be the value of a string field. -/
def accepts : Schema → Bytes → Bool
  -- proto2 takes any bytes, as far as the parser is concerned
  | .proto2, _ => true
  | .proto3, bs => (ofText bs).isSome

/-- The number may be the value of an enumeration field. -/
def keeps : Schema → Bool → Bool
  -- a closed enumeration: another number goes to the unknown fields
  | .proto2, named => named
  | .proto3, _ => true

/-- Set a string field. -/
def string {α : Type} (q : Schema) (bs : Bytes) (set : Bytes → α) : Option α :=
  if q.accepts bs then some (set bs) else none

def requestSet (q : Schema) (r : Request) (rec : Record) : Option Request :=
  match rec with
  | ⟨1, .len bs⟩ => q.string bs fun s => { r with args := r.args ++ [s] }
  | ⟨2, .len bs⟩ => q.string bs fun s => { r with model := some s }
  | ⟨3, .varint n⟩ => some { r with timeout := some (Int32.ofInt n) }
  | ⟨4, .len bs⟩ => q.string bs fun s => { r with user := some s }
  | ⟨5, .len bs⟩ => q.string bs fun s => { r with chroot := some s }
  | ⟨6, .varint n⟩ =>
    let m := OutMode.ofInt32 (Int32.ofInt n)
    some (if q.keeps m.named then { r with outmode := some m } else r)
  | ⟨7, .varint n⟩ =>
    let m := OutMode.ofInt32 (Int32.ofInt n)
    some (if q.keeps m.named then { r with errmode := some m } else r)
  | ⟨8, .len bs⟩ => q.string bs fun s => { r with outfile := some s }
  | ⟨9, .len bs⟩ => q.string bs fun s => { r with errfile := some s }
  | ⟨10, .varint n⟩ => some { r with network := some (n % 2 ^ 64 ≠ 0) }
  | ⟨11, .varint n⟩ => some { r with backend := some (n % 2 ^ 64 ≠ 0) }
  | ⟨12, .varint n⟩ => some { r with nice := some (Int32.ofInt n) }
  | ⟨13, .len bs⟩ => q.string bs fun s => { r with memlimit := some s }
  | ⟨14, .len bs⟩ => q.string bs fun s => { r with memswlimit := some s }
  | ⟨15, .len bs⟩ => q.string bs fun s => { r with envs := r.envs ++ [s] }
  -- an unknown field, or one of another wire type
  | _ => some r

def responseSet (q : Schema) (r : Response) (rec : Record) : Option Response :=
  match rec with
  | ⟨1, .varint n⟩ =>
    let m := Stat.ofInt32 (Int32.ofInt n)
    some (if q.keeps m.named then { r with stat := some m } else r)
  | ⟨2, .varint n⟩ => some { r with retval := some (Int32.ofInt n) }
  | ⟨3, .len bs⟩ => q.string bs fun s => { r with outstr := some s }
  | ⟨4, .len bs⟩ => q.string bs fun s => { r with errstr := some s }
  | _ => some r

def runprocSet (q : Schema) (p : Runproc) (rec : Record) : Option Runproc :=
  match rec with
  | ⟨1, .varint n⟩ => some { p with pid := some (Int32.ofInt n) }
  | ⟨2, .varint n⟩ => some { p with since := some (Int64.ofInt n) }
  | ⟨3, .len bs⟩ =>
    (merge (requestSet q) (p.request.getD {}) bs).map fun r => { p with request := some r }
  | _ => some p

def messageSet (q : Schema) (m : Message) (rec : Record) : Option Message :=
  match rec with
  | ⟨1, .varint n⟩ =>
    let k := Method.ofInt32 (Int32.ofInt n)
    some (if q.keeps k.named then { m with method := some k } else m)
  -- a sub-message that has been there is merged with the new one
  | ⟨2, .len bs⟩ =>
    (merge (responseSet q) (m.response.getD {}) bs).map fun r => { m with response := some r }
  | ⟨3, .len bs⟩ =>
    (merge (requestSet q) (m.request.getD {}) bs).map fun r => { m with request := some r }
  | ⟨4, .len bs⟩ =>
    (merge (runprocSet q) {} bs).map fun p => { m with runlist := m.runlist ++ [p] }
  | _ => some m

/-- The required fields have been set. -/
def Message.initialized (m : Message) : Bool :=
  m.method.isSome && m.response.all (·.stat.isSome) && m.runlist.all (·.pid.isSome)

/-- `ParseFromString`. -/
def parse (q : Schema) (bs : Bytes) : Option Message :=
  -- proto3 has no required fields
  (merge (messageSet q) {} bs).filter fun m => q = .proto3 || m.initialized

/-! ### What a parser makes of a written object -/

section Fold

variable {α β : Type} {set : α → Record → Option α} {xs ys : List Record} {g k : α → α} {num : ℕ}
  {q : Schema}

/-- The records do `g` to every object that they are parsed into. -/
def Acts (set : α → Record → Option α) (rs : List Record) (g : α → α) : Prop :=
  ∀ a, rs.foldlM set a = some (g a)

theorem Acts.append (h : Acts set xs g) (h' : Acts set ys k) : Acts set (xs ++ ys) (k ∘ g) := by
  intro a
  rw [List.foldlM_append, h a]
  exact h' (g a)

theorem acts_field {enc : β → Payload} {v : Option β} (hnone : v = none → ∀ a, g a = a)
    (hsome : ∀ x, v = some x → ∀ a, set a ⟨num, enc x⟩ = some (g a)) :
    Acts set (field num enc v) g := by
  intro a
  cases v with
  | none => simp [field, hnone]
  | some x => simp [field, hsome x rfl a]

theorem acts_repeated {rec : β → Record} (add : List β → α → α) {bs : List β}
    (hnil : ∀ a, add [] a = a) (hcons : ∀ b bs a, add bs (add [b] a) = add (b :: bs) a)
    (hset : ∀ b ∈ bs, ∀ a, set a (rec b) = some (add [b] a)) : Acts set (bs.map rec) (add bs) := by
  induction bs with
  | nil =>
    intro a
    exact congrArg some (hnil a).symm
  | cons b bs ih =>
    intro a
    have hrest := ih (fun b' hb' => hset b' (List.mem_cons_of_mem _ hb')) (add [b] a)
    rw [List.map_cons, List.foldlM_cons, hset b List.mem_cons_self]
    exact hrest.trans (congrArg some (hcons b bs a))

/-- A record that no object takes fails the parser. -/
theorem foldlM_eq_none {rec : Record} (hmem : rec ∈ xs) (hset : ∀ a, set a rec = none) (a : α) :
    xs.foldlM set a = none := by
  -- whatever the records before it have made of the object
  induction xs generalizing a with
  | nil => cases hmem
  | cons x xs ih =>
    rw [List.foldlM_cons]
    rcases List.mem_cons.mp hmem with rfl | hmem
    · rw [hset]; rfl
    · cases set a x with
      | none => rfl
      | some b => exact ih hmem b

end Fold

variable {q : Schema}

theorem string_of_accepts {α : Type} {bs : Bytes} {set : Bytes → α} (h : q.accepts bs = true) :
    q.string bs set = some (set bs) := if_pos h

theorem string_of_not_accepts {α : Type} {bs : Bytes} {set : Bytes → α}
    (h : q.accepts bs = false) : q.string bs set = none := if_neg (by rw [h]; decide)

/-- A string field with a value that the parser accepts. -/
theorem acts_string {α : Type} {set : α → Record → Option α} {g : α → α} {num : ℕ}
    {v : Option Bytes} (haccepts : ∀ s, v = some s → q.accepts s = true)
    (hnone : v = none → ∀ a, g a = a)
    (hset : ∀ s, v = some s → ∀ a, set a ⟨num, .len s⟩ = q.string s fun _ => g a) :
    Acts set (field num .len v) g := by
  refine acts_field hnone fun s hs a => ?_
  rw [hset s hs a]
  exact string_of_accepts (haccepts s hs)

/-- The string fields. -/
def Request.strings (r : Request) : List Bytes :=
  r.args ++ r.model.toList ++ r.user.toList ++ r.chroot.toList ++ r.outfile.toList
    ++ r.errfile.toList ++ r.memlimit.toList ++ r.memswlimit.toList ++ r.envs

def Response.strings (r : Response) : List Bytes := r.outstr.toList ++ r.errstr.toList

/-- The request without the numbers that the schema does not keep. -/
def Request.kept (q : Schema) (r : Request) : Request :=
  { r with
    outmode := r.outmode.filter fun m => q.keeps m.named
    errmode := r.errmode.filter fun m => q.keeps m.named }

def Response.kept (q : Schema) (r : Response) : Response :=
  { r with stat := r.stat.filter fun m => q.keeps m.named }

/-- The records of a request give its fields, one after the other. -/
theorem foldlM_requestRecords {r : Request} (h : ∀ s ∈ r.strings, q.accepts s = true) :
    (requestRecords r).foldlM (requestSet q) {} = some (r.kept q) := by
  obtain ⟨args, model, timeout, user, chroot, outmode, errmode, outfile, errfile, network, backend,
    nice, memlimit, memswlimit, envs⟩ := r
  simp only [Request.strings, List.forall_mem_append, Option.mem_toList] at h
  obtain ⟨⟨⟨⟨⟨⟨⟨⟨hargs, hmodel⟩, huser⟩, hchroot⟩, houtfile⟩, herrfile⟩, hmemlimit⟩, hmemswlimit⟩,
    henvs⟩ := h
  -- what the records of each field do, in the order of the numbers
  have h1 : Acts (requestSet q) (args.map fun s => (⟨1, .len s⟩ : Record)) fun a =>
      { a with args := a.args ++ args } :=
    acts_repeated (fun ss (a : Request) => { a with args := a.args ++ ss }) (by simp) (by simp)
      fun s hs a => by simp [requestSet, string_of_accepts (hargs s hs)]
  have h2 : Acts (requestSet q) (field 2 .len model) fun a =>
      { a with model := model <|> a.model } :=
    acts_string hmodel (by rintro rfl _; rfl) (by rintro s rfl a; rfl)
  have h3 : Acts (requestSet q) (field 3 (fun i => int i.toInt) timeout) fun a =>
      { a with timeout := timeout <|> a.timeout } :=
    acts_field (by rintro rfl _; rfl) (by rintro i rfl a; simp [requestSet, int])
  have h4 : Acts (requestSet q) (field 4 .len user) fun a => { a with user := user <|> a.user } :=
    acts_string huser (by rintro rfl _; rfl) (by rintro s rfl a; rfl)
  have h5 : Acts (requestSet q) (field 5 .len chroot) fun a =>
      { a with chroot := chroot <|> a.chroot } :=
    acts_string hchroot (by rintro rfl _; rfl) (by rintro s rfl a; rfl)
  have h6 : Acts (requestSet q) (field 6 (fun m => int m.toInt32.toInt) outmode) fun a =>
      { a with outmode := (outmode.filter fun m => q.keeps m.named) <|> a.outmode } := by
    refine acts_field (by rintro rfl _; rfl) ?_
    rintro m rfl a
    -- a number that the schema does not name leaves the field alone
    simp only [requestSet, int, ofInt_wireInt_int32, OutMode.ofInt32_toInt32, Option.filter]
    split <;> rfl
  have h7 : Acts (requestSet q) (field 7 (fun m => int m.toInt32.toInt) errmode) fun a =>
      { a with errmode := (errmode.filter fun m => q.keeps m.named) <|> a.errmode } := by
    refine acts_field (by rintro rfl _; rfl) ?_
    rintro m rfl a
    simp only [requestSet, int, ofInt_wireInt_int32, OutMode.ofInt32_toInt32, Option.filter]
    split <;> rfl
  have h8 : Acts (requestSet q) (field 8 .len outfile) fun a =>
      { a with outfile := outfile <|> a.outfile } :=
    acts_string houtfile (by rintro rfl _; rfl) (by rintro s rfl a; rfl)
  have h9 : Acts (requestSet q) (field 9 .len errfile) fun a =>
      { a with errfile := errfile <|> a.errfile } :=
    acts_string herrfile (by rintro rfl _; rfl) (by rintro s rfl a; rfl)
  have h10 : Acts (requestSet q) (field 10 (fun b => .varint b.toNat) network) fun a =>
      { a with network := network <|> a.network } :=
    acts_field (by rintro rfl _; rfl) (by rintro b rfl a; cases b <;> rfl)
  have h11 : Acts (requestSet q) (field 11 (fun b => .varint b.toNat) backend) fun a =>
      { a with backend := backend <|> a.backend } :=
    acts_field (by rintro rfl _; rfl) (by rintro b rfl a; cases b <;> rfl)
  have h12 : Acts (requestSet q) (field 12 (fun i => int i.toInt) nice) fun a =>
      { a with nice := nice <|> a.nice } :=
    acts_field (by rintro rfl _; rfl) (by rintro i rfl a; simp [requestSet, int])
  have h13 : Acts (requestSet q) (field 13 .len memlimit) fun a =>
      { a with memlimit := memlimit <|> a.memlimit } :=
    acts_string hmemlimit (by rintro rfl _; rfl) (by rintro s rfl a; rfl)
  have h14 : Acts (requestSet q) (field 14 .len memswlimit) fun a =>
      { a with memswlimit := memswlimit <|> a.memswlimit } :=
    acts_string hmemswlimit (by rintro rfl _; rfl) (by rintro s rfl a; rfl)
  have h15 : Acts (requestSet q) (envs.map fun s => (⟨15, .len s⟩ : Record)) fun a =>
      { a with envs := a.envs ++ envs } :=
    acts_repeated (fun ss (a : Request) => { a with envs := a.envs ++ ss }) (by simp) (by simp)
      fun s hs a => by simp [requestSet, string_of_accepts (henvs s hs)]
  -- each field is written by its own records, so the effects add up to the request
  have hall := h1.append h2 |>.append h3 |>.append h4 |>.append h5 |>.append h6 |>.append h7
    |>.append h8 |>.append h9 |>.append h10 |>.append h11 |>.append h12 |>.append h13
    |>.append h14 |>.append h15
  refine (hall {}).trans (congrArg some ?_)
  simp [Request.kept]

theorem foldlM_responseRecords {r : Response} (h : ∀ s ∈ r.strings, q.accepts s = true) :
    (responseRecords r).foldlM (responseSet q) {} = some (r.kept q) := by
  obtain ⟨stat, retval, outstr, errstr⟩ := r
  simp only [Response.strings, List.forall_mem_append, Option.mem_toList] at h
  obtain ⟨hout, herr⟩ := h
  have h1 : Acts (responseSet q) (field 1 (fun m => int m.toInt32.toInt) stat) fun a =>
      { a with stat := (stat.filter fun m => q.keeps m.named) <|> a.stat } := by
    refine acts_field (by rintro rfl _; rfl) ?_
    rintro m rfl a
    simp only [responseSet, int, ofInt_wireInt_int32, Stat.ofInt32_toInt32, Option.filter]
    split <;> rfl
  have h2 : Acts (responseSet q) (field 2 (fun i => int i.toInt) retval) fun a =>
      { a with retval := retval <|> a.retval } :=
    acts_field (by rintro rfl _; rfl) (by rintro i rfl a; simp [responseSet, int])
  have h3 : Acts (responseSet q) (field 3 .len outstr) fun a =>
      { a with outstr := outstr <|> a.outstr } :=
    acts_string hout (by rintro rfl _; rfl) (by rintro s rfl a; rfl)
  have h4 : Acts (responseSet q) (field 4 .len errstr) fun a =>
      { a with errstr := errstr <|> a.errstr } :=
    acts_string herr (by rintro rfl _; rfl) (by rintro s rfl a; rfl)
  have hall := h1.append h2 |>.append h3 |>.append h4
  refine (hall {}).trans (congrArg some ?_)
  simp [Response.kept]

/-! A string that the parser does not accept fails it. -/

theorem foldlM_requestRecords_eq_none {r : Request} {s : Bytes} (hmem : s ∈ r.strings)
    (h : q.accepts s = false) (a : Request) :
    (requestRecords r).foldlM (requestSet q) a = none := by
  -- the numbers of the string fields
  have hset (num : ℕ) (hnum : num ∈ [1, 2, 4, 5, 8, 9, 13, 14, 15]) (a : Request) :
      requestSet q a ⟨num, .len s⟩ = none := by
    simp only [List.mem_cons, List.not_mem_nil, or_false] at hnum
    rcases hnum with rfl | rfl | rfl | rfl | rfl | rfl | rfl | rfl | rfl <;>
      simp [requestSet, string_of_not_accepts h]
  have hfail (num : ℕ) (hnum : num ∈ [1, 2, 4, 5, 8, 9, 13, 14, 15])
      (hrec : (⟨num, .len s⟩ : Record) ∈ requestRecords r) :
      (requestRecords r).foldlM (requestSet q) a = none :=
    foldlM_eq_none hrec (hset num hnum) a
  simp only [Request.strings, List.mem_append, Option.mem_toList] at hmem
  -- the field in which the string stands fails the parser, whatever the others are
  rcases hmem with (((((((hs | hs) | hs) | hs) | hs) | hs) | hs) | hs) | hs
  · exact hfail 1 (by simp) (by simp [requestRecords, hs])
  · exact hfail 2 (by simp) (by simp [requestRecords, field, hs])
  · exact hfail 4 (by simp) (by simp [requestRecords, field, hs])
  · exact hfail 5 (by simp) (by simp [requestRecords, field, hs])
  · exact hfail 8 (by simp) (by simp [requestRecords, field, hs])
  · exact hfail 9 (by simp) (by simp [requestRecords, field, hs])
  · exact hfail 13 (by simp) (by simp [requestRecords, field, hs])
  · exact hfail 14 (by simp) (by simp [requestRecords, field, hs])
  · exact hfail 15 (by simp) (by simp [requestRecords, hs])

theorem foldlM_responseRecords_eq_none {r : Response} {s : Bytes} (hmem : s ∈ r.strings)
    (h : q.accepts s = false) (a : Response) :
    (responseRecords r).foldlM (responseSet q) a = none := by
  simp only [Response.strings, List.mem_append, Option.mem_toList] at hmem
  rcases hmem with hs | hs
  · have hrec : (⟨3, .len s⟩ : Record) ∈ responseRecords r := by simp [responseRecords, field, hs]
    exact foldlM_eq_none hrec (fun a => by simp [responseSet, string_of_not_accepts h]) a
  · have hrec : (⟨4, .len s⟩ : Record) ∈ responseRecords r := by simp [responseRecords, field, hs]
    exact foldlM_eq_none hrec (fun a => by simp [responseSet, string_of_not_accepts h]) a

/-! ### Sub-messages -/

theorem plain_int {num : ℕ} {i : Int} (hnum : 0 < num ∧ num < 16) : Plain ⟨num, int i⟩ :=
  ⟨hnum.1, hnum.2, wireInt_lt i⟩

theorem plain_bool {num : ℕ} {b : Bool} (hnum : 0 < num ∧ num < 16) :
    Plain ⟨num, .varint b.toNat⟩ := by
  refine ⟨hnum.1, hnum.2, ?_⟩
  show b.toNat < 2 ^ 64
  cases b <;> decide

theorem plain_len {num : ℕ} {bs : Bytes} (hnum : 0 < num ∧ num < 16) : Plain ⟨num, .len bs⟩ :=
  ⟨hnum.1, hnum.2, trivial⟩

theorem plain_requestRecords (r : Request) : ∀ x ∈ requestRecords r, Plain x := by
  unfold requestRecords field
  simp only [List.forall_mem_append, List.forall_mem_map]
  repeat' apply And.intro
  all_goals
    intro a _
    first
      | exact plain_len (by decide)
      | exact plain_int (by decide)
      | exact plain_bool (by decide)

theorem plain_responseRecords (r : Response) : ∀ x ∈ responseRecords r, Plain x := by
  unfold responseRecords field
  simp only [List.forall_mem_append, List.forall_mem_map]
  exact ⟨⟨⟨fun _ _ => plain_int (by decide), fun _ _ => plain_int (by decide)⟩,
    fun _ _ => plain_len (by decide)⟩, fun _ _ => plain_len (by decide)⟩

theorem plain_runprocRecords (p : Runproc) : ∀ x ∈ runprocRecords p, Plain x := by
  unfold runprocRecords field
  simp only [List.forall_mem_append, List.forall_mem_map]
  exact ⟨⟨fun _ _ => plain_int (by decide), fun _ _ => plain_int (by decide)⟩,
    fun _ _ => plain_len (by decide)⟩

theorem plain_messageRecords (m : Message) : ∀ x ∈ messageRecords m, Plain x := by
  unfold messageRecords field
  simp only [List.forall_mem_append, List.forall_mem_map]
  exact ⟨⟨⟨fun _ _ => plain_int (by decide), fun _ _ => plain_len (by decide)⟩,
    fun _ _ => plain_len (by decide)⟩, fun _ _ => plain_len (by decide)⟩

def Runproc.strings (p : Runproc) : List Bytes := p.request.toList.flatMap Request.strings

def Message.strings (m : Message) : List Bytes :=
  m.response.toList.flatMap Response.strings ++ m.request.toList.flatMap Request.strings
    ++ m.runlist.flatMap Runproc.strings

def Runproc.kept (q : Schema) (p : Runproc) : Runproc :=
  { p with request := p.request.map (Request.kept q) }

def Message.kept (q : Schema) (m : Message) : Message :=
  { method := m.method.filter fun k => q.keeps k.named
    response := m.response.map (Response.kept q)
    request := m.request.map (Request.kept q)
    runlist := m.runlist.map (Runproc.kept q) }

/-- The message has a size that the serializers do not refuse. -/
def Fits (rs : List Record) : Prop := (putRecords rs).length < 2 ^ 31

theorem Fits.sub {num : ℕ} {rs ms : List Record} (h : Fits ms) (hmem : subField num rs ∈ ms) :
    Fits rs := Nat.lt_of_le_of_lt (putRecords_length_le hmem) h

/-! The sub-messages of a message are among its records. -/

theorem subField_mem_response {m : Message} {r : Response} (h : m.response = some r) :
    subField 2 (responseRecords r) ∈ messageRecords m :=
  List.mem_append_left _ (List.mem_append_left _ (List.mem_append_right _ (by simp [h])))

theorem subField_mem_request {m : Message} {r : Request} (h : m.request = some r) :
    subField 3 (requestRecords r) ∈ messageRecords m :=
  List.mem_append_left _ (List.mem_append_right _ (by simp [h]))

theorem subField_mem_runlist {m : Message} {p : Runproc} (h : p ∈ m.runlist) :
    subField 4 (runprocRecords p) ∈ messageRecords m :=
  List.mem_append_right _ (List.mem_map.mpr ⟨p, h, rfl⟩)

theorem subField_mem_runproc {p : Runproc} {r : Request} (h : p.request = some r) :
    subField 3 (requestRecords r) ∈ runprocRecords p :=
  List.mem_append_right _ (by simp [h])

theorem merge_requestRecords {r : Request} (hfits : Fits (requestRecords r))
    (h : ∀ s ∈ r.strings, q.accepts s = true) :
    merge (requestSet q) {} (putRecords (requestRecords r)) = some (r.kept q) := by
  rw [merge_putRecords (plain_requestRecords r) hfits]
  exact foldlM_requestRecords h

theorem merge_responseRecords {r : Response} (hfits : Fits (responseRecords r))
    (h : ∀ s ∈ r.strings, q.accepts s = true) :
    merge (responseSet q) {} (putRecords (responseRecords r)) = some (r.kept q) := by
  rw [merge_putRecords (plain_responseRecords r) hfits]
  exact foldlM_responseRecords h

theorem merge_runprocRecords {p : Runproc} (hfits : Fits (runprocRecords p))
    (h : ∀ s ∈ p.strings, q.accepts s = true) :
    merge (runprocSet q) {} (putRecords (runprocRecords p)) = some (p.kept q) := by
  have hsub : ∀ r, p.request = some r → Fits (requestRecords r) :=
    fun r hr => hfits.sub (subField_mem_runproc hr)
  rw [merge_putRecords (plain_runprocRecords p) hfits]
  obtain ⟨pid, since, request⟩ := p
  unfold runprocRecords
  refine foldlM_append_of ⟨pid, since, none⟩ (foldlM_append_of ⟨pid, none, none⟩ ?_ ?_) ?_
  · cases pid <;> simp [field, runprocSet, int]
  · cases since <;> simp [field, runprocSet, int]
  · cases request with
    | none => rfl
    | some r =>
      have hr := merge_requestRecords (hsub r rfl) fun s hs => h s (by simpa [Runproc.strings])
      simp [runprocSet, subField, hr, Runproc.kept]

theorem merge_messageRecords {m : Message} (hfits : Fits (messageRecords m))
    (h : ∀ s ∈ m.strings, q.accepts s = true) :
    merge (messageSet q) {} (putRecords (messageRecords m)) = some (m.kept q) := by
  have hresp : ∀ r, m.response = some r → Fits (responseRecords r) :=
    fun r hr => hfits.sub (subField_mem_response hr)
  have hreq : ∀ r, m.request = some r → Fits (requestRecords r) :=
    fun r hr => hfits.sub (subField_mem_request hr)
  have hrun : ∀ p ∈ m.runlist, Fits (runprocRecords p) :=
    fun p hp => hfits.sub (subField_mem_runlist hp)
  rw [merge_putRecords (plain_messageRecords m) hfits]
  obtain ⟨method, response, request, runlist⟩ := m
  simp only [Message.strings, List.forall_mem_append] at h
  obtain ⟨⟨hs2, hs3⟩, hs4⟩ := h
  unfold messageRecords
  -- the message that has been parsed after each of the four fields
  refine foldlM_append_of ⟨method.filter fun k => q.keeps k.named, response.map (Response.kept q),
      request.map (Request.kept q), []⟩
    (foldlM_append_of ⟨method.filter fun k => q.keeps k.named, response.map (Response.kept q),
      none, []⟩ (foldlM_append_of ⟨method.filter fun k => q.keeps k.named, none, none, []⟩
        ?_ ?_) ?_) ?_
  · cases method with
    | none => rfl
    | some k =>
      simp only [field, messageSet, int, Option.toList_some, List.map_singleton,
        List.foldlM_cons, ofInt_wireInt_int32, Method.ofInt32_toInt32, Option.filter]
      split <;> rfl
  · cases response with
    | none => rfl
    | some r =>
      have hr := merge_responseRecords (hresp r rfl) fun s hs => hs2 s (by simpa)
      simp [messageSet, subField, hr]
  · cases request with
    | none => rfl
    | some r =>
      have hr := merge_requestRecords (hreq r rfl) fun s hs => hs3 s (by simpa)
      simp [messageSet, subField, hr]
  · have hacts : Acts (messageSet q) (runlist.map fun p => subField 4 (runprocRecords p)) fun a =>
        { a with runlist := a.runlist ++ runlist.map (Runproc.kept q) } := by
      refine acts_repeated (fun ps (a : Message) =>
        { a with runlist := a.runlist ++ ps.map (Runproc.kept q) }) (by simp) (by simp) ?_
      intro p hp a
      have hr := merge_runprocRecords (hrun p hp) fun s hs =>
        hs4 s (List.mem_flatMap.mpr ⟨p, hp, hs⟩)
      simp [messageSet, subField, hr]
    exact hacts _

theorem merge_runprocRecords_eq_none {p : Runproc} {s : Bytes} (hfits : Fits (runprocRecords p))
    (hmem : s ∈ p.strings) (h : q.accepts s = false) (a : Runproc) :
    merge (runprocSet q) a (putRecords (runprocRecords p)) = none := by
  obtain ⟨r, hr, hs⟩ := List.mem_flatMap.mp hmem
  have hr := Option.mem_toList.mp hr
  have hsub := hfits.sub (subField_mem_runproc hr)
  rw [merge_putRecords (plain_runprocRecords p) hfits]
  refine foldlM_eq_none (subField_mem_runproc hr) (fun b => ?_) a
  simp only [subField, runprocSet, merge_putRecords (plain_requestRecords r) hsub,
    foldlM_requestRecords_eq_none hs h, Option.map_none]

/-- A message with a string that the parser does not accept is refused. -/
theorem merge_messageRecords_eq_none {m : Message} {s : Bytes} (hfits : Fits (messageRecords m))
    (hmem : s ∈ m.strings) (h : q.accepts s = false) :
    merge (messageSet q) {} (putRecords (messageRecords m)) = none := by
  rw [merge_putRecords (plain_messageRecords m) hfits]
  simp only [Message.strings, List.mem_append, List.mem_flatMap, Option.mem_toList] at hmem
  rcases hmem with (⟨r, hr, hs⟩ | ⟨r, hr, hs⟩) | ⟨p, hp, hs⟩
  · have hsub := hfits.sub (subField_mem_response hr)
    refine foldlM_eq_none (subField_mem_response hr) (fun b => ?_) _
    simp only [subField, messageSet, merge_putRecords (plain_responseRecords r) hsub,
      foldlM_responseRecords_eq_none hs h, Option.map_none]
  · have hsub := hfits.sub (subField_mem_request hr)
    refine foldlM_eq_none (subField_mem_request hr) (fun b => ?_) _
    simp only [subField, messageSet, merge_putRecords (plain_requestRecords r) hsub,
      foldlM_requestRecords_eq_none hs h, Option.map_none]
  · have hsub := hfits.sub (subField_mem_runlist hp)
    refine foldlM_eq_none (subField_mem_runlist hp) (fun b => ?_) _
    simp only [subField, messageSet, merge_runprocRecords_eq_none hsub hs h, Option.map_none]

/-! ### The values of a message -/

/-- The values that the getters return: an absent field has its default. -/
def Request.values (r : Request) : Request :=
  { args := r.args
    model := some (r.model.getD [])
    timeout := some (r.timeout.getD 0)
    user := some (r.user.getD [])
    chroot := some (r.chroot.getD [])
    outmode := some (r.outmode.getD .ign)
    errmode := some (r.errmode.getD .ign)
    outfile := some (r.outfile.getD [])
    errfile := some (r.errfile.getD [])
    network := some (r.network.getD false)
    backend := some (r.backend.getD false)
    nice := some (r.nice.getD 0)
    memlimit := some (r.memlimit.getD [])
    memswlimit := some (r.memswlimit.getD [])
    envs := r.envs }

def Response.values (r : Response) : Response :=
  { stat := some (r.stat.getD .normal)
    retval := some (r.retval.getD 0)
    outstr := some (r.outstr.getD [])
    errstr := some (r.errstr.getD []) }

def Runproc.values (p : Runproc) : Runproc :=
  { pid := some (p.pid.getD 0)
    since := some (p.since.getD 0)
    request := p.request.map Request.values }

def Message.values (m : Message) : Message :=
  { method := some (m.method.getD .exe)
    response := m.response.map Response.values
    request := m.request.map Request.values
    runlist := m.runlist.map Runproc.values }

/-- The enumerators of a request are those of the schema. -/
def Request.Named (r : Request) : Prop :=
  (∀ m ∈ r.outmode, m.named = true) ∧ ∀ m ∈ r.errmode, m.named = true

def Response.Named (r : Response) : Prop := ∀ k ∈ r.stat, k.named = true

def Runproc.Named (p : Runproc) : Prop := ∀ r ∈ p.request, r.Named

def Message.Named (m : Message) : Prop :=
  (∀ k ∈ m.method, k.named = true) ∧ (∀ r ∈ m.response, r.Named) ∧ (∀ r ∈ m.request, r.Named) ∧
    ∀ p ∈ m.runlist, p.Named

/-- No field that proto2 requires is zero. -/
def Message.Filled (m : Message) : Prop :=
  m.method.getD .exe ≠ .exe ∧ (∀ r ∈ m.response, r.stat.getD .normal ≠ .normal) ∧
    ∀ p ∈ m.runlist, p.pid.getD 0 ≠ 0

section Optional

variable {α : Type} [DecidableEq α] {zero : α} {v : Option α} {named : α → Bool}

@[simp] theorem nonzero_none : nonzero zero none = none := rfl

@[simp] theorem nonzero_zero : nonzero zero (some zero) = none := by
  simp [nonzero, Option.filter]

theorem nonzero_some {a : α} (ha : a ≠ zero) : nonzero zero (some a) = some a := by
  simp [nonzero, Option.filter, ha]

@[simp] theorem nonzero_getD : (nonzero zero v).getD zero = v.getD zero := by
  cases v with
  | none => rfl
  | some a =>
    by_cases ha : a = zero
    · simp [ha]
    · rw [nonzero_some ha]

theorem nonzero_isSome : (nonzero zero v).isSome ↔ v.getD zero ≠ zero := by
  cases v with
  | none => simp
  | some a =>
    by_cases ha : a = zero
    · simp [ha]
    · simp [nonzero_some ha, ha]

/-- A number without a name is not the default. -/
theorem filter_nonzero_getD (hzero : named zero = true) :
    ((nonzero zero v).filter named).getD zero = v.getD zero ↔ ∀ a ∈ v, named a = true := by
  cases v with
  | none => simp
  -- zero has a name; another value is dropped exactly when it has none
  | some a =>
    by_cases ha : a = zero
    · simp [ha, hzero]
    · cases hn : named a
      · simp [nonzero_some ha, Option.filter, hn, Ne.symm ha]
      · simp [nonzero_some ha, Option.filter, hn]

theorem filter_nonzero_isSome (hnamed : ∀ a ∈ v, named a = true) :
    ((nonzero zero v).filter named).isSome ↔ v.getD zero ≠ zero := by
  rw [← nonzero_isSome]
  cases v with
  | none => simp
  | some a =>
    by_cases ha : a = zero
    · simp [ha]
    · simp [nonzero_some ha, Option.filter, hnamed a rfl]

end Optional

/-! What is kept of an object that is written under proto3 has its values if the schema has
names for its enumerators. -/

theorem Request.values_kept_iff {r : Request} :
    ((r.written .proto3).kept .proto2).values = r.values ↔ r.Named := by
  -- only the two enumerations can lose their value
  have hout : ((nonzero .ign r.outmode).filter OutMode.named).getD .ign = r.outmode.getD .ign ↔
      ∀ m ∈ r.outmode, m.named = true := filter_nonzero_getD rfl
  have herr : ((nonzero .ign r.errmode).filter OutMode.named).getD .ign = r.errmode.getD .ign ↔
      ∀ m ∈ r.errmode, m.named = true := filter_nonzero_getD rfl
  simp [Request.values, Request.kept, Request.written, keeps, Request.Named, hout, herr]

theorem Response.values_kept_iff {r : Response} :
    ((r.written .proto3).kept .proto2).values = r.values ↔ r.Named := by
  have hstat : ((nonzero .normal r.stat).filter Stat.named).getD .normal = r.stat.getD .normal ↔
      ∀ k ∈ r.stat, k.named = true := filter_nonzero_getD rfl
  simp [Response.values, Response.kept, Response.written, keeps, Response.Named, hstat]

theorem Runproc.values_kept_iff {p : Runproc} :
    ((p.written .proto3).kept .proto2).values = p.values ↔ p.Named := by
  obtain ⟨pid, since, request⟩ := p
  cases request with
  | none => simp [Runproc.values, Runproc.kept, Runproc.written, Runproc.Named]
  | some r =>
    simp [Runproc.values, Runproc.kept, Runproc.written, Runproc.Named, Request.values_kept_iff]

theorem Message.values_kept_iff {m : Message} :
    ((m.written .proto3).kept .proto2).values = m.values ↔ m.Named := by
  obtain ⟨method, response, request, runlist⟩ := m
  have hmethod : ((nonzero .exe method).filter Method.named).getD .exe = method.getD .exe ↔
      ∀ k ∈ method, k.named = true := filter_nonzero_getD rfl
  have hresponse : response.map (fun r => ((r.written .proto3).kept .proto2).values) =
      response.map Response.values ↔ ∀ r ∈ response, r.Named := by
    cases response with
    | none => simp
    | some r => simp [Response.values_kept_iff]
  have hrequest : request.map (fun r => ((r.written .proto3).kept .proto2).values) =
      request.map Request.values ↔ ∀ r ∈ request, r.Named := by
    cases request with
    | none => simp
    | some r => simp [Request.values_kept_iff]
  have hrunlist : runlist.map (fun p => ((p.written .proto3).kept .proto2).values) =
      runlist.map Runproc.values ↔ ∀ p ∈ runlist, p.Named := by
    rw [List.map_inj_left]
    exact forall₂_congr fun p _ => Runproc.values_kept_iff
  simp only [Message.values, Message.kept, Message.written, Message.Named, Message.mk.injEq,
    Option.map_map, List.map_map, Function.comp_def, Option.some.injEq, hresponse, hrequest,
    hrunlist]
  exact and_congr_left' hmethod

/-- What is kept of a message of this schema that is written under proto3 has its required
fields. -/
theorem Message.initialized_kept_iff {m : Message} (hnamed : m.Named) :
    ((m.written .proto3).kept .proto2).initialized = true ↔ m.Filled := by
  obtain ⟨method, response, request, runlist⟩ := m
  obtain ⟨hmethod, hresponse, -, -⟩ := hnamed
  have hm : ((nonzero .exe method).filter Method.named).isSome ↔ method.getD .exe ≠ .exe :=
    filter_nonzero_isSome hmethod
  have hr : ∀ r, response = some r →
      (((nonzero .normal r.stat).filter Stat.named).isSome ↔ r.stat.getD .normal ≠ .normal) :=
    fun r h => filter_nonzero_isSome (hresponse r h)
  simp only [Message.initialized, Message.kept, Message.written, Message.Filled, Bool.and_eq_true,
    List.all_map, List.all_eq_true, Function.comp_def, Runproc.kept, Runproc.written]
  rw [and_assoc]
  refine and_congr hm (and_congr ?_ (forall₂_congr fun p _ => nonzero_isSome))
  cases response with
  | none => simp
  | some r => simpa [Response.kept, Response.written, keeps] using hr r rfl

/-- proto3 keeps every number. -/
theorem Message.kept_proto3 (m : Message) : m.kept .proto3 = m := by
  have hkeep {α : Type} (v : Option α) : v.filter (fun _ => true) = v := by cases v <;> rfl
  have hrequest : Request.kept .proto3 = id := by
    funext r
    simp [Request.kept, keeps, hkeep]
  have hresponse : Response.kept .proto3 = id := by
    funext r
    simp [Response.kept, keeps, hkeep]
  have hrunproc : Runproc.kept .proto3 = id := by
    funext p
    simp [Runproc.kept, hrequest]
  simp [Message.kept, keeps, hkeep, hrequest, hresponse, hrunproc]

/-! ### Exchange -/

theorem serialize_eq_some_iff {m : Message} {bs : Bytes} :
    serialize q m = some bs ↔
      Fits (messageRecords (m.written q)) ∧ putRecords (messageRecords (m.written q)) = bs := by
  unfold serialize
  rw [Option.ite_none_right_eq_some, Option.some.injEq]
  rfl

/-- What a message written under one schema is under another. -/
theorem parse_serialize {q q' : Schema} {m : Message} {bs : Bytes} (hbs : serialize q m = some bs)
    (h : ∀ s ∈ (m.written q).strings, q'.accepts s = true) :
    parse q' bs = (some ((m.written q).kept q')).filter fun m => q' = .proto3 || m.initialized := by
  obtain ⟨hfits, rfl⟩ := serialize_eq_some_iff.mp hbs
  rw [parse, merge_messageRecords hfits h]

theorem parse_eq_none {q q' : Schema} {m : Message} {bs s : Bytes} (hbs : serialize q m = some bs)
    (hmem : s ∈ (m.written q).strings) (h : q'.accepts s = false) : parse q' bs = none := by
  obtain ⟨hfits, rfl⟩ := serialize_eq_some_iff.mp hbs
  rw [parse, merge_messageRecords_eq_none hfits hmem h]
  rfl

/-- The message is understood under the schema: it is parsed to one with its values. -/
def Understood (q : Schema) (bs : Bytes) (m : Message) : Prop :=
  ∃ m', parse q bs = some m' ∧ m'.values = m.values

theorem understood_proto2_iff {m : Message} {bs : Bytes} (hbs : serialize .proto3 m = some bs) :
    Understood .proto2 bs m ↔ m.Named ∧ m.Filled := by
  -- proto2 accepts every string, so the message is parsed up to the required fields
  have hparse : parse .proto2 bs = _ := parse_serialize hbs fun _ _ => rfl
  constructor
  · rintro ⟨m', hm', hvalues⟩
    rw [hparse, Option.filter_eq_some_iff] at hm'
    obtain ⟨heq, hinit⟩ := hm'
    obtain rfl := Option.some.inj heq
    -- the values show that no number has been dropped, and then the required fields are seen
    have hnamed := Message.values_kept_iff.mp hvalues
    exact ⟨hnamed, (Message.initialized_kept_iff hnamed).mp (by simpa using hinit)⟩
  · rintro ⟨hnamed, hfilled⟩
    refine ⟨_, ?_, Message.values_kept_iff.mpr hnamed⟩
    rw [hparse, Option.filter_eq_some_iff]
    exact ⟨rfl, by simpa using (Message.initialized_kept_iff hnamed).mpr hfilled⟩

theorem understood_proto3_iff {m : Message} {bs : Bytes} (hbs : serialize .proto2 m = some bs) :
    Understood .proto3 bs m ↔ ∀ s ∈ m.strings, (ofText s).isSome := by
  constructor
  · rintro ⟨m', hm', -⟩ s hs
    -- one string that is no text fails the whole message
    by_contra htext
    have hnone : parse .proto3 bs = none :=
      parse_eq_none hbs hs (by simpa [accepts] using htext)
    rw [hnone] at hm'
    cases hm'
  · intro h
    have hparse : parse .proto3 bs = _ := parse_serialize hbs h
    refine ⟨m, ?_, rfl⟩
    rw [hparse, Option.filter_eq_some_iff]
    exact ⟨congrArg some m.kept_proto3, rfl⟩

/-- **The exchange between the schemas.** A message written under proto3 is understood under
proto2 if and only if its enumerators are those of the schema and no required field is zero.
One written under proto2 is understood under proto3 if and only if its strings are UTF-8
text. -/
theorem exchange_iff (m : Message) (bs : Bytes) :
    (serialize .proto3 m = some bs → (Understood .proto2 bs m ↔ m.Named ∧ m.Filled)) ∧
      (serialize .proto2 m = some bs →
        (Understood .proto3 bs m ↔ ∀ s ∈ m.strings, (ofText s).isSome)) :=
  ⟨understood_proto2_iff, understood_proto3_iff⟩

/-! ### The messages of the client and of the daemon -/

/-- The message of `Srunc::run`. -/
def run (request : Request) : Message := { method := some .exe, request := some request }

/-- The result of a command, to which `manager_start` adds the outputs. -/
def result (response : Response) (outstr errstr : Bytes) : Message :=
  { method := some .exe
    response := some { response with outstr := some outstr, errstr := some errstr } }

/-- The command `/bin/ls`. -/
def lsRequest : Request := { args := [text "/bin/ls"] }

/-- The answer to LIST while `/bin/ls` runs as process 100, with a timeout of its own and its
output captured. -/
def listAnswer : Message :=
  { method := some .list
    runlist := [{ pid := some 100, since := some 1500000000, request := some {
      lsRequest with timeout := some 600, outmode := some .msg } }] }

/-- That answer crosses in both directions. -/
theorem list_exchange :
    (∃ bs, serialize .proto3 listAnswer = some bs ∧ Understood .proto2 bs listAnswer) ∧
      ∃ bs, serialize .proto2 listAnswer = some bs ∧ Understood .proto3 bs listAnswer := by
  obtain ⟨bs, hbs⟩ := Option.isSome_iff_exists.mp
    (show (serialize .proto3 listAnswer).isSome = true by decide +kernel)
  obtain ⟨bs', hbs'⟩ := Option.isSome_iff_exists.mp
    (show (serialize .proto2 listAnswer).isSome = true by decide +kernel)
  refine ⟨⟨bs, hbs, ((exchange_iff listAnswer bs).1 hbs).mpr ⟨?_, ?_⟩⟩,
    ⟨bs', hbs', ((exchange_iff listAnswer bs').2 hbs').mpr ?_⟩⟩
  · simp [Message.Named, Runproc.Named, Request.Named, listAnswer, lsRequest, Method.named,
      OutMode.named]
  · simp [Message.Filled, listAnswer]
  · simp [Message.strings, Runproc.strings, Request.strings, listAnswer, lsRequest]

/-- A proto2 daemon does not understand a proto3 client that wants `/bin/ls` run, since EXE
is zero; and a proto3 client does not understand the result of a command that printed a byte
which is no text. -/
theorem exchange_refused :
    (∃ bs, serialize .proto3 (run lsRequest) = some bs ∧ parse .proto2 bs = none) ∧
      ∃ bs, serialize .proto2 (result { stat := some .normal, retval := some 0 } [0xff] []) =
          some bs ∧
        parse .proto3 bs = none :=
  ⟨⟨[26, 9, 10, 7, 47, 98, 105, 110, 47, 108, 115], by decide +kernel, by decide +kernel⟩,
    [8, 0, 18, 9, 8, 0, 16, 0, 26, 1, 255, 34, 0], by decide +kernel, by decide +kernel⟩

/-! ### The messages of the manager -/

/-- A request object with its fields set. -/
def ofRequest (r : Srun.Request) : Request :=
  { args := r.args.map text
    model := some (text r.model)
    timeout := some r.timeout
    user := some (text r.user)
    chroot := some (text r.chroot)
    outmode := some r.outmode
    errmode := some r.errmode
    outfile := some (text r.outfile)
    errfile := some (text r.errfile)
    network := some r.network
    backend := some r.backend
    nice := some r.nice
    memlimit := some (text r.memlimit)
    memswlimit := some (text r.memswlimit)
    envs := r.envs.map text }

def ofResponse (r : Srun.Response) : Response :=
  { stat := some r.stat, retval := some r.retval, outstr := some r.outstr, errstr := some r.errstr }

def ofRunproc (p : Srun.Runproc) : Runproc :=
  { pid := some p.pid, since := some p.since, request := p.request.map ofRequest }

/-- The object that the message describes, with its fields set. -/
def ofMessage (m : Srun.Message) : Message :=
  { method := some m.method
    response := m.response.map ofResponse
    request := m.request.map ofRequest
    runlist := m.runlist.map ofRunproc }

section Written

variable {num : ℕ}

/-- A field that is not zero is written. -/
theorem field_nonzero {α : Type} [DecidableEq α] {zero a : α} {enc : α → Payload}
    {rs : List Record} (hzero : a = zero → rs = []) (hset : a ≠ zero → rs = [⟨num, enc a⟩]) :
    field num enc (nonzero zero (some a)) = rs := by
  by_cases ha : a = zero
  · rw [hzero ha, ha, nonzero_zero]
    rfl
  · rw [hset ha, nonzero_some ha]
    rfl

theorem field_nonzero_text {bs : Bytes} :
    field num .len (nonzero [] (some bs)) = textField num bs :=
  field_nonzero (fun h => if_pos h) fun h => if_neg h

theorem field_nonzero_int {α : Type} [DecidableEq α] {zero a : α} (value : α → Int)
    (hzero : wireInt (value zero) = 0) (hinj : wireInt (value a) = 0 → a = zero) :
    field num (fun a => int (value a)) (nonzero zero (some a)) = intField num (wireInt (value a)) :=
  field_nonzero (fun h => if_pos (by rw [h, hzero])) fun h => if_neg fun h0 => h (hinj h0)

theorem field_nonzero_bool {b : Bool} :
    field num (fun b => .varint b.toNat) (nonzero false (some b)) = intField num b.toNat := by
  refine field_nonzero (fun h => by rw [h]; rfl) fun h => ?_
  rw [Bool.eq_true_of_not_eq_false h]
  rfl

end Written

theorem records_ofRequest (r : Srun.Request) :
    requestRecords ((ofRequest r).written .proto3) = Proto3.requestRecords r := by
  simp only [requestRecords, Request.written, ofRequest, field_nonzero_text, field_nonzero_bool,
    List.map_map, Function.comp_def, Proto3.requestRecords,
    field_nonzero_int Int32.toInt rfl wireInt_int32_eq_zero,
    field_nonzero_int (fun m : OutMode => m.toInt32.toInt) rfl outMode_eq_ign]

theorem records_ofResponse (r : Srun.Response) :
    responseRecords ((ofResponse r).written .proto3) = Proto3.responseRecords r := by
  simp only [responseRecords, Response.written, ofResponse, field_nonzero_text,
    Proto3.responseRecords, field_nonzero_int Int32.toInt rfl wireInt_int32_eq_zero,
    field_nonzero_int (fun m : Stat => m.toInt32.toInt) rfl stat_eq_normal]

theorem records_ofRunproc (p : Srun.Runproc) :
    runprocRecords ((ofRunproc p).written .proto3) = Proto3.runprocRecords p := by
  obtain ⟨pid, since, request⟩ := p
  simp only [runprocRecords, Runproc.written, ofRunproc, Proto3.runprocRecords,
    field_nonzero_int Int32.toInt rfl wireInt_int32_eq_zero,
    field_nonzero_int Int64.toInt rfl wireInt_int64_eq_zero]
  cases request with
  | none => rfl
  | some r => simp [records_ofRequest]

/-- The records that proto3 writes of an object are those of the message. -/
theorem records_ofMessage (m : Srun.Message) :
    messageRecords ((ofMessage m).written .proto3) = Proto3.messageRecords m := by
  obtain ⟨method, response, request, runlist⟩ := m
  have hresponse : (((response.map ofResponse).map (Response.written .proto3)).toList.map
      fun r => subField 2 (responseRecords r)) =
      response.toList.map fun r => subField 2 (Proto3.responseRecords r) := by
    cases response with
    | none => rfl
    | some r => simp [records_ofResponse]
  have hrequest : (((request.map ofRequest).map (Request.written .proto3)).toList.map
      fun r => subField 3 (requestRecords r)) =
      request.toList.map fun r => subField 3 (Proto3.requestRecords r) := by
    cases request with
    | none => rfl
    | some r => simp [records_ofRequest]
  simp only [messageRecords, Message.written, ofMessage, Proto3.messageRecords, hresponse, hrequest,
    List.map_map, Function.comp_def, records_ofRunproc,
    field_nonzero_int (fun m : Method => m.toInt32.toInt) rfl method_eq_exe]

/-- The two accounts of the proto3 encoding agree. -/
theorem serialize_ofMessage (m : Srun.Message) :
    serialize .proto3 (ofMessage m) = Proto3.serialize m := by
  rw [serialize, Proto3.serialize, records_ofMessage]

end Schema

end Srun
