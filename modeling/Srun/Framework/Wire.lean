import Mathlib

/-!
# Tagged records on a byte stream

The wire format of protocol buffers, without any schema: a message is a sequence
of records, each a tag (field number and wire type) and a payload. Integers are
varints, seven bits a byte with the high bit set on all bytes but the last.

`Splits bs rs` says that the bytes `bs` are exactly the records `rs`. A record
announces its own end, a message does not: the bytes of two messages in a row are
the records of both (`Splits.append`), and that is all a reader can tell. What it
can tell is where records end, so two cuts of one stream that take the same number
of records are the same cut (`Splits.eq_of_length_eq`).

The deprecated groups (wire types 3 and 4) are a record at their start and one at
their end, with the records between. A parser that does not know a group skips it
with all it holds, nested groups included (`ungroup`); the nesting may be deeper
here than the hundred levels that protobuf allows.
-/

namespace Wire

/-! ### Varints -/

/-- The varint of `n` on at most `k + 1` bytes. -/
def putVarint : ℕ → ℕ → List UInt8
  | 0, n => [UInt8.ofNat n]
  | k + 1, n =>
    if n < 128 then [UInt8.ofNat n]
    else UInt8.ofNat (n % 128 + 128) :: putVarint k (n / 128)

/-- Read a varint of at most `k` bytes. -/
def getVarint : ℕ → List UInt8 → Option (ℕ × List UInt8)
  | 0, _ | _, [] => none
  | k + 1, b :: bs =>
    if b.toNat < 128 then some (b.toNat, bs)
    else (getVarint k bs).map fun (n, rest) => (b.toNat - 128 + 128 * n, rest)

theorem length_putVarint_le (k n : ℕ) : (putVarint k n).length ≤ k + 1 := by
  induction k generalizing n with
  | zero => simp [putVarint]
  | succ k ih =>
    rw [putVarint]
    split
    · simp
    · exact Nat.succ_le_succ (ih (n / 128))

theorem toNat_ofNat_of_lt {n : ℕ} (h : n < 256) : (UInt8.ofNat n).toNat = n := by
  rw [UInt8.toNat_ofNat']
  exact Nat.mod_eq_of_lt h

/-- Reading a varint gives back what was written. -/
theorem getVarint_putVarint {k n : ℕ} (rest : List UInt8) (h : n < 128 ^ (k + 1)) :
    getVarint (k + 1) (putVarint k n ++ rest) = some (n, rest) := by
  induction k generalizing n with
  | zero =>
    have hn : n < 128 := by simpa using h
    simp [putVarint, getVarint, toNat_ofNat_of_lt (show n < 256 by omega), hn]
  | succ k ih =>
    by_cases hn : n < 128
    · simp [putVarint, getVarint, toNat_ofNat_of_lt (show n < 256 by omega), hn]
    · have hdiv : n / 128 < 128 ^ (k + 1) := by
        rw [Nat.div_lt_iff_lt_mul (by decide)]
        rwa [Nat.pow_succ] at h
      have hb := toNat_ofNat_of_lt (show n % 128 + 128 < 256 by omega)
      rw [putVarint, if_neg hn, List.cons_append, getVarint, hb, if_neg (by omega), ih hdiv]
      simp only [Option.map_some, Option.some.injEq, Prod.mk.injEq, and_true]
      omega

/-- What follows a varint does not change it. -/
theorem getVarint_append {k n : ℕ} {bs rest : List UInt8} (x : List UInt8)
    (h : getVarint k bs = some (n, rest)) : getVarint k (bs ++ x) = some (n, rest ++ x) := by
  induction k generalizing bs n with
  | zero => simp [getVarint] at h
  | succ k ih =>
    cases bs with
    | nil => simp [getVarint] at h
    | cons b bs =>
      rw [List.cons_append]
      simp only [getVarint] at h ⊢
      split at h
      · next hb => rw [if_pos hb]; cases h; rfl
      · next hb =>
        obtain ⟨⟨m, r⟩, hm, heq⟩ := Option.map_eq_some_iff.mp h
        cases heq
        rw [if_neg hb, ih hm]
        rfl

theorem getVarint_length_lt {k n : ℕ} {bs rest : List UInt8}
    (h : getVarint k bs = some (n, rest)) : rest.length < bs.length := by
  induction k generalizing bs n with
  | zero => simp [getVarint] at h
  | succ k ih =>
    cases bs with
    | nil => simp [getVarint] at h
    | cons b bs =>
      simp only [getVarint] at h
      split at h
      · cases h; simp
      · obtain ⟨⟨m, r⟩, hm, heq⟩ := Option.map_eq_some_iff.mp h
        cases heq
        have hlt : r.length < bs.length := ih hm
        exact Nat.lt_succ_of_lt hlt

/-- The first `n` bytes, when there are so many. -/
def takeBytes (n : ℕ) (bs : List UInt8) : Option (List UInt8 × List UInt8) :=
  if n ≤ bs.length then some (bs.take n, bs.drop n) else none

theorem takeBytes_append_self (bs rest : List UInt8) :
    takeBytes bs.length (bs ++ rest) = some (bs, rest) := by
  simp [takeBytes]

theorem takeBytes_append {n : ℕ} {bs a rest : List UInt8} (x : List UInt8)
    (h : takeBytes n bs = some (a, rest)) : takeBytes n (bs ++ x) = some (a, rest ++ x) := by
  simp only [takeBytes] at h ⊢
  split at h
  · next hn =>
    cases h
    rw [if_pos (by simp only [List.length_append]; omega), List.take_append_of_le_length hn,
      List.drop_append_of_le_length hn]
  · cases h

theorem takeBytes_length_le {n : ℕ} {bs a rest : List UInt8} (h : takeBytes n bs = some (a, rest)) :
    rest.length ≤ bs.length := by
  simp only [takeBytes] at h
  split at h
  · cases h; simp
  · cases h

/-! ### Records -/

/-- The payload of a record, by wire type. -/
inductive Payload
  | varint (n : ℕ)
  | fixed64 (bs : List UInt8)
  | len (bs : List UInt8)
  | startGroup
  | endGroup
  | fixed32 (bs : List UInt8)
  deriving DecidableEq

/-- A record: a field number and a payload. -/
structure Record where
  num : ℕ
  payload : Payload
  deriving DecidableEq

/-- Varints of 64 bits take at most ten bytes. -/
def maxVarint : ℕ := 9

def Payload.wireType : Payload → ℕ
  | .varint _ => 0
  | .fixed64 _ => 1
  | .len _ => 2
  | .startGroup => 3
  | .endGroup => 4
  | .fixed32 _ => 5

def Payload.put : Payload → List UInt8
  | .varint n => putVarint maxVarint n
  | .fixed64 bs | .fixed32 bs => bs
  | .len bs => putVarint maxVarint bs.length ++ bs
  | .startGroup | .endGroup => []

def Record.put (r : Record) : List UInt8 :=
  putVarint maxVarint (r.num * 8 + r.payload.wireType) ++ r.payload.put

/-- The records of a message in a row. -/
def putRecords (rs : List Record) : List UInt8 := rs.flatMap Record.put

theorem put_length_le {r : Record} {rs : List Record} (h : r ∈ rs) :
    r.put.length ≤ (putRecords rs).length := by
  induction h with
  | head rs => simp [putRecords]
  | tail r' _ ih =>
    rw [putRecords, List.flatMap_cons, List.length_append]
    exact Nat.le_trans ih (Nat.le_add_left _ _)

/-- A tag and a length take ten bytes each at most. -/
theorem Record.length_put_len_le (num : ℕ) (bs : List UInt8) :
    (Record.put ⟨num, .len bs⟩).length ≤ 20 + bs.length := by
  have htag := length_putVarint_le maxVarint (num * 8 + (Payload.len bs).wireType)
  have hlen := length_putVarint_le maxVarint bs.length
  simp only [Record.put, Payload.put, List.length_append]
  unfold maxVarint at *
  omega

theorem Record.length_put_varint_le (num n : ℕ) :
    (Record.put ⟨num, .varint n⟩).length ≤ 20 := by
  have htag := length_putVarint_le maxVarint (num * 8 + (Payload.varint n).wireType)
  have hn := length_putVarint_le maxVarint n
  simp only [Record.put, Payload.put, List.length_append]
  unfold maxVarint at *
  omega

theorem putRecords_append (xs ys : List Record) :
    putRecords (xs ++ ys) = putRecords xs ++ putRecords ys := List.flatMap_append

def getPayload (wireType : ℕ) (bs : List UInt8) : Option (Payload × List UInt8) :=
  match wireType with
  | 0 => (getVarint (maxVarint + 1) bs).map fun (n, rest) => (.varint n, rest)
  | 1 => (takeBytes 8 bs).map fun (x, rest) => (.fixed64 x, rest)
  | 2 =>
    (getVarint (maxVarint + 1) bs).bind fun (n, bs) =>
      (takeBytes n bs).map fun (x, rest) => (.len x, rest)
  | 3 => some (.startGroup, bs)
  | 4 => some (.endGroup, bs)
  | 5 => (takeBytes 4 bs).map fun (x, rest) => (.fixed32 x, rest)
  | _ => none

/-- Read one record. Field number 0 is illegal. -/
def getRecord (bs : List UInt8) : Option (Record × List UInt8) :=
  (getVarint (maxVarint + 1) bs).bind fun (tag, bs) =>
    if tag / 8 = 0 then none
    else (getPayload (tag % 8) bs).map fun (p, rest) => (⟨tag / 8, p⟩, rest)

/-- The records that can be written: a positive field number of 29 bits, integers
of 64 bits, and contents whose length is one. -/
structure Record.Valid (r : Record) : Prop where
  num_pos : 0 < r.num
  num_lt : r.num < 2 ^ 29
  payload : match r.payload with
    | .varint n => n < 2 ^ 64
    | .fixed64 bs => bs.length = 8
    | .len bs => bs.length < 2 ^ 64
    | .startGroup | .endGroup => True
    | .fixed32 bs => bs.length = 4

theorem getPayload_put {r : Record} (h : r.Valid) (rest : List UInt8) :
    getPayload r.payload.wireType (r.payload.put ++ rest) = some (r.payload, rest) := by
  have hp := h.payload
  -- ten groups of seven bits hold an integer of 64
  have hpow : 2 ^ 64 ≤ 128 ^ (maxVarint + 1) := by decide
  cases heq : r.payload with
  | varint n =>
    rw [heq] at hp
    simp [getPayload, Payload.wireType, Payload.put,
      getVarint_putVarint rest (Nat.lt_of_lt_of_le hp hpow)]
  | fixed64 bs =>
    rw [heq] at hp
    have ht := takeBytes_append_self bs rest
    rw [hp] at ht
    simp [getPayload, Payload.wireType, Payload.put, ht]
  | len bs =>
    rw [heq] at hp
    simp only [getPayload, Payload.wireType, Payload.put, List.append_assoc]
    rw [getVarint_putVarint (bs ++ rest) (Nat.lt_of_lt_of_le hp hpow), Option.bind_some,
      takeBytes_append_self]
    rfl
  | startGroup | endGroup => rfl
  | fixed32 bs =>
    rw [heq] at hp
    have ht := takeBytes_append_self bs rest
    rw [hp] at ht
    simp [getPayload, Payload.wireType, Payload.put, ht]

/-- Reading a record gives back what was written. -/
theorem getRecord_put {r : Record} (h : r.Valid) (rest : List UInt8) :
    getRecord (r.put ++ rest) = some (r, rest) := by
  have hw : r.payload.wireType < 8 := by cases r.payload <;> simp [Payload.wireType]
  have hnum := h.num_lt
  have hpos := h.num_pos
  -- a tag of 29 + 3 bits fits into the varint
  have htag : r.num * 8 + r.payload.wireType < 128 ^ (maxVarint + 1) := by
    have : 2 ^ 29 * 8 ≤ 128 ^ (maxVarint + 1) := by decide
    omega
  rw [Record.put, List.append_assoc, getRecord, getVarint_putVarint _ htag, Option.bind_some]
  simp only
  rw [if_neg (by omega), show (r.num * 8 + r.payload.wireType) / 8 = r.num by omega,
    show (r.num * 8 + r.payload.wireType) % 8 = r.payload.wireType by omega, getPayload_put h]
  rfl

theorem getPayload_append {w : ℕ} {bs rest : List UInt8} {p : Payload} (x : List UInt8)
    (h : getPayload w bs = some (p, rest)) : getPayload w (bs ++ x) = some (p, rest ++ x) := by
  unfold getPayload at h ⊢
  -- one case per wire type; only the one with a length reads twice
  split at h
  · obtain ⟨⟨n, r⟩, hn, heq⟩ := Option.map_eq_some_iff.mp h
    cases heq
    simp [getVarint_append x hn]
  · obtain ⟨⟨y, r⟩, hn, heq⟩ := Option.map_eq_some_iff.mp h
    cases heq
    simp [takeBytes_append x hn]
  · obtain ⟨⟨n, r⟩, hn, h⟩ := Option.bind_eq_some_iff.mp h
    obtain ⟨⟨y, r'⟩, ht, heq⟩ := Option.map_eq_some_iff.mp h
    cases heq
    simp [getVarint_append x hn, takeBytes_append x ht]
  · cases h
    rfl
  · cases h
    rfl
  · obtain ⟨⟨y, r⟩, hn, heq⟩ := Option.map_eq_some_iff.mp h
    cases heq
    simp [takeBytes_append x hn]
  · cases h

/-- What follows a record does not change it. -/
theorem getRecord_append {bs rest : List UInt8} {r : Record} (x : List UInt8)
    (h : getRecord bs = some (r, rest)) : getRecord (bs ++ x) = some (r, rest ++ x) := by
  obtain ⟨⟨tag, bs'⟩, htag, h⟩ := Option.bind_eq_some_iff.mp h
  rw [getRecord, getVarint_append x htag, Option.bind_some]
  simp only at h ⊢
  split at h
  · cases h
  · next hnum =>
    obtain ⟨⟨p, rest'⟩, hp, heq⟩ := Option.map_eq_some_iff.mp h
    cases heq
    rw [if_neg hnum, getPayload_append x hp]
    rfl

theorem getPayload_length_le {w : ℕ} {bs rest : List UInt8} {p : Payload}
    (h : getPayload w bs = some (p, rest)) : rest.length ≤ bs.length := by
  unfold getPayload at h
  split at h
  · -- a varint takes a byte at least, the others may be empty
    obtain ⟨⟨n, r⟩, hn, heq⟩ := Option.map_eq_some_iff.mp h
    cases heq
    exact Nat.le_of_lt (getVarint_length_lt hn)
  · obtain ⟨⟨y, r⟩, hn, heq⟩ := Option.map_eq_some_iff.mp h
    cases heq
    exact takeBytes_length_le hn
  · obtain ⟨⟨n, r⟩, hn, h⟩ := Option.bind_eq_some_iff.mp h
    obtain ⟨⟨y, r'⟩, ht, heq⟩ := Option.map_eq_some_iff.mp h
    cases heq
    exact Nat.le_trans (takeBytes_length_le ht) (Nat.le_of_lt (getVarint_length_lt hn))
  · cases h
    exact Nat.le_refl _
  · cases h
    exact Nat.le_refl _
  · obtain ⟨⟨y, r⟩, hn, heq⟩ := Option.map_eq_some_iff.mp h
    cases heq
    exact takeBytes_length_le hn
  · cases h

theorem getRecord_length_lt {bs rest : List UInt8} {r : Record}
    (h : getRecord bs = some (r, rest)) : rest.length < bs.length := by
  obtain ⟨⟨tag, bs'⟩, htag, h⟩ := Option.bind_eq_some_iff.mp h
  simp only at h
  split at h
  · cases h
  · obtain ⟨⟨p, rest'⟩, hp, heq⟩ := Option.map_eq_some_iff.mp h
    cases heq
    exact Nat.lt_of_le_of_lt (getPayload_length_le hp) (getVarint_length_lt htag)

/-! ### Byte strings that are records -/

/-- The bytes are exactly these records. -/
inductive Splits : List UInt8 → List Record → Prop
  | nil : Splits [] []
  | cons {bs rest : List UInt8} {r : Record} {rs : List Record}
      (hr : getRecord bs = some (r, rest)) (hrs : Splits rest rs) : Splits bs (r :: rs)

/-- Nothing holds no records. -/
theorem Splits.eq_nil {rs : List Record} (h : Splits [] rs) : rs = [] := by
  cases h with
  | nil => rfl
  | cons hr => cases hr

/-- Reading records while there are bytes, `k` of them at most. -/
def getRecords : ℕ → List UInt8 → Option (List Record)
  | _, [] => some []
  | 0, _ :: _ => none
  | k + 1, b :: bs =>
    (getRecord (b :: bs)).bind fun (r, rest) => (getRecords k rest).map (r :: ·)

/-- The records of a byte string; none when it is not a sequence of records. -/
def records (bs : List UInt8) : Option (List Record) := getRecords bs.length bs

theorem splits_of_getRecords {k : ℕ} {bs : List UInt8} {rs : List Record}
    (h : getRecords k bs = some rs) : Splits bs rs := by
  induction k generalizing bs rs with
  | zero =>
    cases bs with
    | nil => cases h; exact .nil
    | cons b bs => simp [getRecords] at h
  | succ k ih =>
    cases bs with
    | nil => cases h; exact .nil
    | cons b bs =>
      obtain ⟨⟨r, rest⟩, hr, h⟩ := Option.bind_eq_some_iff.mp h
      obtain ⟨rs', hrs, rfl⟩ := Option.map_eq_some_iff.mp h
      exact .cons hr (ih hrs)

theorem Splits.getRecords {k : ℕ} {bs : List UInt8} {rs : List Record} (h : Splits bs rs)
    (hk : bs.length ≤ k) : getRecords k bs = some rs := by
  induction h generalizing k with
  | nil => cases k <;> rfl
  | @cons bs rest r rs hr hrs ih =>
    -- a record takes a byte at least, so the length is fuel enough
    have hlt := getRecord_length_lt hr
    obtain ⟨k, rfl⟩ : ∃ j, k = j + 1 := ⟨k - 1, by omega⟩
    cases bs with
    | nil => cases hr
    | cons b bs => simp [Wire.getRecords, hr, ih (show rest.length ≤ k by omega)]

/-- `records` decides `Splits`. -/
theorem records_eq_some_iff {bs : List UInt8} {rs : List Record} :
    records bs = some rs ↔ Splits bs rs :=
  ⟨splits_of_getRecords, fun h => h.getRecords (Nat.le_refl _)⟩

/-- What is written is read as the same records. -/
theorem splits_putRecords {rs : List Record} (h : ∀ r ∈ rs, r.Valid) :
    Splits (putRecords rs) rs := by
  induction rs with
  | nil => exact .nil
  | cons r rs ih =>
    rw [putRecords, List.flatMap_cons]
    exact .cons (getRecord_put (h r List.mem_cons_self) _)
      (ih fun r' hr' => h r' (List.mem_cons_of_mem _ hr'))

/-- **Concatenation.** Two messages in a row are the records of both. -/
theorem Splits.append {as bs : List UInt8} {ra rb : List Record} (ha : Splits as ra)
    (hb : Splits bs rb) : Splits (as ++ bs) (ra ++ rb) := by
  induction ha with
  | nil => exact hb
  | cons hr _ ih => exact .cons (getRecord_append bs hr) ih

/-- **Alignment.** Two beginnings of one stream with as many records are equal. -/
theorem Splits.eq_of_length_eq {as bs xs ys : List UInt8} {ra rb : List Record}
    (ha : Splits as ra) (hb : Splits bs rb) (hlen : ra.length = rb.length)
    (h : as ++ xs = bs ++ ys) : as = bs ∧ xs = ys := by
  induction ha generalizing bs rb with
  | nil =>
    obtain rfl := List.length_eq_zero_iff.mp hlen.symm
    cases hb
    exact ⟨rfl, h⟩
  | @cons as rest r ra hr hra ih =>
    cases hb with
    | nil => cases hlen
    | @cons _ rest' r' rb hr' hrb =>
      -- both beginnings start with the first record of the stream
      have h1 := getRecord_append xs hr
      have h2 := getRecord_append ys hr'
      rw [h] at h1
      obtain ⟨rfl, hrest⟩ := Prod.mk.inj (Option.some.inj (h1.symm.trans h2))
      obtain ⟨rfl, rfl⟩ := ih hrb (by simpa using hlen) hrest
      exact ⟨List.append_cancel_right h, rfl⟩

theorem Splits.unique {bs : List UInt8} {ra rb : List Record} (ha : Splits bs ra)
    (hb : Splits bs rb) : ra = rb :=
  Option.some.inj ((records_eq_some_iff.mpr ha).symm.trans (records_eq_some_iff.mpr hb))

/-- `a` and `b` are records, and `a` has as many as `b` at least. -/
def AtLeast (a b : List UInt8) : Prop :=
  ∃ ra rb, Splits a ra ∧ Splits b rb ∧ rb.length ≤ ra.length

theorem AtLeast.flatten {as bs : List (List UInt8)} (h : List.Forall₂ AtLeast as bs) :
    AtLeast as.flatten bs.flatten := by
  induction h with
  | nil => exact ⟨[], [], .nil, .nil, Nat.le_refl _⟩
  | cons hab _ ih =>
    obtain ⟨ra, rb, ha, hb, hle⟩ := hab
    obtain ⟨rs, rt, hs, ht, hle'⟩ := ih
    refine ⟨ra ++ rs, rb ++ rt, ha.append hs, hb.append ht, ?_⟩
    rw [List.length_append, List.length_append]
    exact Nat.add_le_add hle hle'

/-- **Two cuts of one stream.** When each piece of the first has as many records at
least as the piece of the second, the cuts are the same. -/
theorem eq_of_atLeast {as bs : List (List UInt8)} (h : List.Forall₂ AtLeast as bs)
    (heq : as.flatten = bs.flatten) : as = bs := by
  induction h with
  | nil => rfl
  | cons hab hrest ih =>
    obtain ⟨ra, rb, ha, hb, hle⟩ := hab
    obtain ⟨rs, rt, hs, ht, hle'⟩ := AtLeast.flatten hrest
    rw [List.flatten_cons, List.flatten_cons] at heq
    -- no piece has more, since the records of the stream are counted
    have hcount : (ra ++ rs).length = (rb ++ rt).length := by
      rw [(ha.append hs).unique (heq ▸ hb.append ht)]
    rw [List.length_append, List.length_append] at hcount
    obtain ⟨rfl, htail⟩ := ha.eq_of_length_eq hb (by omega) heq
    rw [ih htail]

/-! ### Groups -/

/-- The records that stand in no group, where the groups `opened` have begun before the
first; none when an end has no start, or a start no end. -/
def ungroup : List ℕ → List Record → Option (List Record)
  | [], [] => some []
  | _ :: _, [] => none
  | opened, ⟨num, .startGroup⟩ :: rs => ungroup (num :: opened) rs
  | opened, ⟨num, .endGroup⟩ :: rs =>
    match opened with
    | [] => none
    | num' :: opened => if num = num' then ungroup opened rs else none
  | [], r :: rs => (ungroup [] rs).map (r :: ·)
  | num :: opened, _ :: rs => ungroup (num :: opened) rs

/-- A record that starts or ends a group. -/
def Payload.group : Payload → Bool
  | .startGroup | .endGroup => true
  | _ => false

/-- Where there is no group, nothing is skipped. -/
theorem ungroup_eq_self {rs : List Record} (h : ∀ r ∈ rs, r.payload.group = false) :
    ungroup [] rs = some rs := by
  induction rs with
  | nil => rfl
  | cons r rs ih =>
    have hr := h r List.mem_cons_self
    have hrs := ih fun r' hr' => h r' (List.mem_cons_of_mem _ hr')
    obtain ⟨num, payload⟩ := r
    cases payload with
    | startGroup | endGroup => cases hr
    | _ => simp [ungroup, hrs]

/-- Skipping groups adds no record. -/
theorem ungroup_sublist {opened : List ℕ} {rs rs' : List Record}
    (h : ungroup opened rs = some rs') : rs'.Sublist rs := by
  fun_induction ungroup opened rs generalizing rs' with
  | case1 => cases h; exact .slnil
  | case2 | case4 | case6 => cases h
  | case3 _ _ _ ih => exact (ih h).cons _
  | case5 _ _ _ ih => exact (ih h).cons _
  | case7 r rs _ _ ih =>
    -- the record of no group is the one that stays
    obtain ⟨rs₀, hrs₀, rfl⟩ := Option.map_eq_some_iff.mp h
    exact (ih hrs₀).cons_cons _
  | case8 _ _ _ _ _ _ ih => exact (ih h).cons _

end Wire
