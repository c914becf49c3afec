import Srun.Manager.Cases

/-!
# Memory limits

What `handle_request` writes as the limits of a command, for every text in the request.

The code decides with `atoi` whether a text is a limit. `atoi` keeps the low 32 bits of the
number, so a text is taken for one or not by the sign of what is left of it.
`limits_kept_iff` says for which texts this comes to the same as the sign of the number.
-/

namespace Srun

/-- The integer at the start of a text, of any size; 0 when there is none. -/
def leadingInteger (s : List Char) : Int :=
  match s.dropWhile fun c => c = ' ' || ('\t' ≤ c && c ≤ '\r') with
  | '-' :: cs => -(strtolDigits 0 cs : Int)
  | '+' :: cs => (strtolDigits 0 cs : Int)
  | cs => (strtolDigits 0 cs : Int)

/-- `strtol` is the number, saturated. -/
theorem strtol_eq (s : List Char) :
    strtol s = max (-2 ^ 63) (min (leadingInteger s) (2 ^ 63 - 1)) := by
  -- a minus, a plus, or no sign
  fun_cases leadingInteger s with
  | case1 cs hs =>
    simp only [strtol, hs]
    omega
  | case2 cs hs =>
    simp only [strtol, hs]
    omega
  | case3 hminus hplus =>
    simp only [strtol]
    omega

/-- A positive `int` by the low 32 bits of the number. -/
theorem int32_ofInt_pos {n : Int} : 0 < Int32.ofInt n ↔ 1 ≤ n % 2 ^ 32 ∧ n % 2 ^ 32 < 2 ^ 31 := by
  rw [Int32.lt_iff_toInt_lt, Int32.toInt_ofInt, Int.bmod_def]
  simp only [Int32.size, Int32.toInt_zero]
  omega

/-- What is to become of a limit; `writes` says of a value, or of none, that it is what is
written. -/
structure LimitKept (text default : String) (writes : Option String → Prop) : Prop where
  empty : text = "" → writes (some default)
  positive : 0 < leadingInteger text.toList → writes (some text)
  unlimited : writes none → text ≠ "" ∧ leadingInteger text.toList ≤ 0

/-- The texts on which `atoi` has the sign of the number, as far as it is positive. -/
def Representable (text : String) : Prop :=
  text = "" ∨ leadingInteger text.toList ≤ 0 ∨
    leadingInteger text.toList < 2 ^ 63 ∧ 1 ≤ leadingInteger text.toList % 2 ^ 32 ∧
      leadingInteger text.toList % 2 ^ 32 < 2 ^ 31

instance (text : String) : Decidable (Representable text) := inferInstanceAs (Decidable (_ ∨ _))

theorem atoi_pos {text : String} (hpos : 0 < leadingInteger text.toList) :
    0 < atoi text ↔ leadingInteger text.toList < 2 ^ 63 ∧
      1 ≤ leadingInteger text.toList % 2 ^ 32 ∧ leadingInteger text.toList % 2 ^ 32 < 2 ^ 31 := by
  rw [atoi, int32_ofInt_pos, strtol_eq]
  omega

theorem leadingInteger_empty : leadingInteger "".toList = 0 := by decide

/-- The value that the code computes keeps the limit exactly when `atoi` has the right
sign. -/
theorem limitKept_iff {text default : String} {writes : Option String → Prop}
    (hwrites : ∀ v, writes v ↔ v = limitValue text default) :
    LimitKept text default writes ↔ Representable text := by
  by_cases hempty : text = ""
  · refine iff_of_true ⟨fun _ => ?_, fun hpos => ?_, fun hnone => ?_⟩ (Or.inl hempty)
    · rw [hwrites, limitValue, if_pos hempty]
    · rw [hempty, leadingInteger_empty] at hpos
      cases hpos
    · rw [hwrites, limitValue, if_pos hempty] at hnone
      cases hnone
  · have hvalue : limitValue text default = if 0 < atoi text then some text else none :=
      if_neg hempty
    rw [Representable, or_iff_right hempty]
    constructor
    · intro h
      -- a limit that is kept is written, so `atoi` has found it positive
      by_cases hpos : 0 < leadingInteger text.toList
      · refine Or.inr ((atoi_pos hpos).mp ?_)
        have hsome := (hwrites _).mp (h.positive hpos)
        exact (Option.ite_none_right_eq_some.mp (hvalue.symm.trans hsome.symm)).1
      · exact Or.inl (not_lt.mp hpos)
    · intro h
      have hatoi (hpos : 0 < leadingInteger text.toList) :
          limitValue text default = some text := by
        rw [hvalue, if_pos ((atoi_pos hpos).mpr (h.resolve_left (not_le.mpr hpos)))]
      refine ⟨fun h' => absurd h' hempty, fun hpos => ?_, fun hnone => ⟨hempty, ?_⟩⟩
      · rw [hwrites, hatoi hpos]
      · refine not_lt.mp fun hpos => ?_
        rw [hwrites, hatoi hpos] at hnone
        cases hnone

namespace Manager

variable {E : Env} {s : Manager} {data : Bytes} {rest : List Int}

/-- What `handle_request` does next about a file of the cgroup: it writes `v` to it, whatever
comes of it, or it goes on without. -/
def Writes (E : Env) (s : Manager) (file : CgroupFile) : Option String → Prop
  | some v =>
    (∃ r, (codeStep E s (.writeCgroup s.clonepid file v r)).isSome) ∧
      ∀ l s', codeStep E s l = some s' → ∃ r, l = .writeCgroup s.clonepid file v r
  | none =>
    (codeStep E s .tau).isSome ∧ ∀ l s', codeStep E s l = some s' → l = .tau

/-- The step for a limit with the value `value`. -/
def limitStep (s : Manager) (file : CgroupFile) (value : Option String) (next : Pc) (l : Label) :
    Option Manager :=
  match value with
  | some v => s.writeLeaf file v next l
  | none => if l matches .tau then some (s.goto next) else none

/-- It writes this value and nothing else. -/
theorem writes_iff_of_limitStep {file : CgroupFile} {value : Option String} {next : Pc}
    (hcode : codeStep E s = s.limitStep file value next) {v : Option String} :
    s.Writes E file v ↔ v = value := by
  have hwrites : s.Writes E file value := by
    cases value with
    | none =>
      refine ⟨by rw [hcode]; rfl, fun l s' hstep => ?_⟩
      rw [hcode] at hstep
      cases l with
      | tau => rfl
      | _ => cases hstep
    | some v =>
      refine ⟨⟨.complete, by simp [hcode, limitStep, writeLeaf]⟩, fun l s' hstep => ?_⟩
      rw [hcode] at hstep
      rcases writeLeaf_cases hstep with ⟨r, -, rfl, -⟩ | ⟨kept, rfl, -⟩
      · exact ⟨r, rfl⟩
      · exact ⟨_, rfl⟩
  constructor
  · intro h
    -- the steps that are possible tell what is written
    cases v with
    | none =>
      cases value with
      | none => rfl
      | some w =>
        obtain ⟨s', hstep⟩ := Option.isSome_iff_exists.mp h.1
        obtain ⟨r, hl⟩ := hwrites.2 _ _ hstep
        cases hl
    | some v =>
      obtain ⟨r, hr⟩ := h.1
      obtain ⟨s', hstep⟩ := Option.isSome_iff_exists.mp hr
      cases value with
      | none => cases hwrites.2 _ _ hstep
      | some w =>
        obtain ⟨r', hl⟩ := hwrites.2 _ _ hstep
        injection hl with _ _ hv _
        rw [hv]
  · rintro rfl
    exact hwrites

theorem writes_memlimit_iff (hpc : s.pc = .handle .memlimit data rest) (v : Option String) :
    s.Writes E .memlimit v ↔ v = s.request.memlimitValue := by
  have hcode : codeStep E s = s.limitStep .memlimit s.request.memlimitValue
      (.handle .memswExists data rest) := by
    funext l
    unfold codeStep
    rw [hpc]
    rfl
  exact writes_iff_of_limitStep hcode

theorem writes_memswlimit_iff (hpc : s.pc = .handle .memswlimit data rest) (v : Option String) :
    s.Writes E .memswlimit v ↔ v = s.request.memswlimitValue := by
  have hcode : codeStep E s = s.limitStep .memswlimit s.request.memswlimitValue
      (.handle .procs data rest) := by
    funext l
    unfold codeStep
    rw [hpc]
    rfl
  exact writes_iff_of_limitStep hcode

/-- **Memory limits.** Where `handle_request` sets the limit for memory, and where it sets
the one for memory and swap because there is such a file, the text of the request, or the
default, becomes the limit unless the text asks for none, if and only if the text is
representable. -/
theorem limits_kept_iff (E : Env) (s : Manager) (data : Bytes) (rest : List Int) :
    (s.pc = .handle .memlimit data rest →
      (LimitKept s.request.memlimit "100M" (s.Writes E .memlimit) ↔
        Representable s.request.memlimit)) ∧
    (s.pc = .handle .memswlimit data rest →
      (LimitKept s.request.memswlimit "1G" (s.Writes E .memswlimit) ↔
        Representable s.request.memswlimit)) :=
  ⟨fun hpc => limitKept_iff (writes_memlimit_iff hpc),
    fun hpc => limitKept_iff (writes_memswlimit_iff hpc)⟩

/-- A manager about to set the limits of a command. -/
def limiting (memlimit : String) : Manager :=
  { connection := 5, pc := .handle .memlimit [] [], request.memlimit := memlimit }

/-- Surroundings that the limits do not look at. -/
def quietEnv : Env := ⟨fun _ => none, fun _ => none, some⟩

/-- A limit of 512 MB. -/
theorem limits_kept_512M :
    LimitKept "512M" "100M" ((limiting "512M").Writes quietEnv .memlimit) :=
  ((limits_kept_iff quietEnv (limiting "512M") [] []).1 rfl).mpr (by decide)

/-- A limit of 2 GB in bytes: it is positive, and nothing is written. -/
theorem not_limits_kept :
    0 < leadingInteger "2147483648".toList ∧
      (limiting "2147483648").Writes quietEnv .memlimit none ∧
      ¬ LimitKept "2147483648" "100M" ((limiting "2147483648").Writes quietEnv .memlimit) := by
  have hpos : 0 < leadingInteger "2147483648".toList := by decide
  have hnone : (limiting "2147483648").Writes quietEnv .memlimit none :=
    (writes_memlimit_iff rfl none).mpr (by decide)
  exact ⟨hpos, hnone, fun h => not_lt.mpr (h.unlimited hnone).2 hpos⟩

end Manager

end Srun
