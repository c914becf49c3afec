import Mathlib

/-!
# Options of one letter

A scan over the words of a command line for options of one letter, as `getopt` does it: a word
that begins with a dash holds a cluster of letters, a letter may take the rest of its word or
the next word as its argument, and a word of two dashes ends the options. Words that are no
options are passed over, and come before what is left at the end. That is GNU's way; the
mode of POSIXLY_CORRECT, and of a `+` before the letters, in which the first such word ends
the options, is not modelled.

`next` is one call. `scan` are the calls up to the end, to a letter that is wrong, or to one
that is told to stop at. `scan_eq_iff` says which words it reads in which way: every command
line is a part that `Spells` options, with other words among them, and an ending (`Ends`).
-/

namespace ShortOptions

variable {α : Type} [DecidableEq α]

/-- The letters that are options. -/
structure Table (α : Type) where
  dash : α
  /-- Whether a letter takes an argument; `none` for one that is no option. -/
  takes : α → Option Bool
  takes_dash : takes dash = none

/-- What a call delivers. -/
inductive Item (α : Type)
  | flag (c : α)
  | arg (c : α) (optarg : List α)
  /-- A letter that is no option, or one whose argument is missing. -/
  | bad (c : α)
  deriving DecidableEq

/-- Where a scan is. -/
structure Scan (α : Type) where
  /-- The words that are no options, so far. -/
  skipped : List (List α) := []
  /-- The letters that are left of the first one of `words`. -/
  cluster : List α := []
  words : List (List α)
  deriving DecidableEq

variable (T : Table α)

/-- A word that begins with a dash and has something behind it. -/
def Table.isOption : List α → Bool
  | a :: _ :: _ => a = T.dash
  | _ => false

/-- The letter `c` of the first word; `cluster` is what comes after it. -/
def letter (skipped : List (List α)) (c : α) (cluster : List α) (words : List (List α)) :
    Item α × Scan α :=
  -- a word is left with its last letter
  let after : Scan α := ⟨skipped, cluster, if cluster = [] then words.tail else words⟩
  match T.takes c with
  | none => (.bad c, after)
  | some false => (.flag c, after)
  | some true =>
    if cluster ≠ [] then (.arg c cluster, ⟨skipped, [], words.tail⟩)
    else
      match words.tail with
      | [] => (.bad c, ⟨skipped, [], []⟩)
      | optarg :: rest => (.arg c optarg, ⟨skipped, [], rest⟩)

/-- The next option word; the words that are left when there is none. -/
def seek (skipped : List (List α)) : List (List α) → Option (Item α) × Scan α
  | [] => (none, ⟨[], [], skipped⟩)
  | (a :: c :: cluster) :: words =>
    if a = T.dash then
      if c = T.dash ∧ cluster = [] then (none, ⟨[], [], skipped ++ words⟩)
      else (letter T skipped c cluster ((a :: c :: cluster) :: words)).map some id
    else seek (skipped ++ [a :: c :: cluster]) words
  | w :: words => seek (skipped ++ [w]) words

/-- One call. -/
def next (s : Scan α) : Option (Item α) × Scan α :=
  match s.cluster with
  | [] => seek T s.skipped s.words
  | c :: cluster => (letter T s.skipped c cluster s.words).map some id

/-- A letter of a word that is read from left to right; `cluster` are the letters left. -/
def inWord (skipped : List (List α)) (cluster w : List α) (words : List (List α)) : Scan α :=
  ⟨skipped, cluster, if cluster = [] then words else w :: words⟩

/-- The letters that are still to be read. -/
def Scan.size (s : Scan α) : ℕ :=
  s.cluster.length + ((if s.cluster = [] then s.words else s.words.tail).map List.length).sum

/-- The scan is over with this one. -/
def Item.ends (stop : α → Bool) : Item α → Bool
  | .flag c => stop c
  | .arg _ _ => false
  | .bad _ => true

variable {T} {stop : α → Bool} {s s' : Scan α} {f : Item α} {c : α}
  {cluster w : List α} {skipped words : List (List α)}

/-! ### Each call reads something -/

omit [DecidableEq α] in
theorem size_letter : (letter T skipped c cluster words).2.size ≤
    cluster.length + (words.tail.map List.length).sum := by
  unfold letter Scan.size
  cases T.takes c with
  | none => by_cases hcl : cluster = [] <;> simp [hcl]
  | some takes =>
    cases takes with
    | false => by_cases hcl : cluster = [] <;> simp [hcl]
    | true =>
      by_cases hcl : cluster = []
      -- the argument is the next word, if there is one
      · cases htail : words.tail <;> simp [hcl]
      · simp [hcl]

theorem size_seek {sk : List (List α)} (h : seek T sk words = (some f, s')) :
    s'.size < (words.map List.length).sum := by
  induction words generalizing sk with
  | nil => cases h
  | cons w words ih =>
    unfold seek at h
    split at h
    · cases h
    · next a c cluster words' heq =>
      obtain ⟨rfl, rfl⟩ := List.cons.inj heq
      split at h
      · split at h
        · cases h
        · obtain rfl := (Prod.mk.inj h).2
          refine lt_of_le_of_lt size_letter ?_
          simp only [List.tail_cons, List.map_cons, List.sum_cons, List.length_cons]
          omega
      · exact lt_of_lt_of_le (ih h) (by simp)
    · next w' words' hno heq =>
      obtain ⟨rfl, rfl⟩ := List.cons.inj heq
      exact lt_of_lt_of_le (ih h) (by simp)

theorem size_next (h : next T s = (some f, s')) : s'.size < s.size := by
  obtain ⟨skipped, cluster, words⟩ := s
  cases cluster with
  | nil => simpa [Scan.size] using size_seek h
  | cons c cluster =>
    obtain rfl := (Prod.mk.inj h).2
    refine lt_of_le_of_lt size_letter ?_
    simp only [Scan.size, List.length_cons, if_neg (List.cons_ne_nil c cluster)]
    omega

variable (T stop)

/-- The calls up to the end of the options, or to a letter that ends the scan, with the words
that are left then. -/
def scan (s : Scan α) : List (Item α) × List (List α) :=
  match _h : next T s with
  | (none, s') => ([], s'.words)
  | (some f, s') =>
    if f.ends stop then ([f], s'.words)
    else (scan s').map (f :: ·) id
termination_by s.size
decreasing_by exact size_next _h

/-- Words that spell options, and the other ones among them. -/
inductive Spells : List (List α) → List (Item α) → List (List α) → Prop
  | nil : Spells [] [] []
  | plain {w : List α} {words : List (List α)} {fs : List (Item α)} {others : List (List α)}
      (hw : T.isOption w = false) (h : Spells words fs others) :
      Spells (w :: words) fs (w :: others)
  /-- A cluster. -/
  | flags {cs : List α} {words : List (List α)} {fs : List (Item α)} {others : List (List α)}
      (hne : cs ≠ []) (hcs : ∀ c ∈ cs, T.takes c = some false ∧ stop c = false)
      (h : Spells words fs others) :
      Spells ((T.dash :: cs) :: words) (cs.map .flag ++ fs) others
  /-- With the argument in the same word. -/
  | attached {cs : List α} {c : α} {optarg : List α} {words : List (List α)}
      {fs : List (Item α)} {others : List (List α)}
      (hcs : ∀ c ∈ cs, T.takes c = some false ∧ stop c = false) (hc : T.takes c = some true)
      (hne : optarg ≠ []) (h : Spells words fs others) :
      Spells ((T.dash :: (cs ++ c :: optarg)) :: words) (cs.map .flag ++ .arg c optarg :: fs) others
  /-- With the argument in the next word, whatever that is. -/
  | separate {cs : List α} {c : α} {optarg : List α} {words : List (List α)}
      {fs : List (Item α)} {others : List (List α)}
      (hcs : ∀ c ∈ cs, T.takes c = some false ∧ stop c = false) (hc : T.takes c = some true)
      (h : Spells words fs others) :
      Spells ((T.dash :: (cs ++ [c])) :: optarg :: words) (cs.map .flag ++ .arg c optarg :: fs)
        others

/-- The end of the options, after the words `others`: the rest of the words, what is found
there, and what is left. -/
inductive Ends (others : List (List α)) :
    List (List α) → List (Item α) → List (List α) → Prop
  | finished : Ends others [] [] others
  | dashes (words : List (List α)) : Ends others ([T.dash, T.dash] :: words) [] (others ++ words)
  /-- The word is left only if the letter is its last one. -/
  | stopped {cs : List α} {c : α} (more : List α) (words : List (List α))
      (hcs : ∀ c ∈ cs, T.takes c = some false ∧ stop c = false) (hc : T.takes c = some false)
      (hstop : stop c = true) :
      Ends others ((T.dash :: (cs ++ c :: more)) :: words) (cs.map .flag ++ [.flag c])
        (if more = [] then words else (T.dash :: (cs ++ c :: more)) :: words)
  | unknown {cs : List α} {c : α} (more : List α) (words : List (List α))
      (hcs : ∀ c ∈ cs, T.takes c = some false ∧ stop c = false) (hc : T.takes c = none)
      (hno : cs ++ c :: more ≠ [T.dash]) :
      Ends others ((T.dash :: (cs ++ c :: more)) :: words) (cs.map .flag ++ [.bad c])
        (if more = [] then words else (T.dash :: (cs ++ c :: more)) :: words)
  | missing {cs : List α} {c : α} (hcs : ∀ c ∈ cs, T.takes c = some false ∧ stop c = false)
      (hc : T.takes c = some true) :
      Ends others [T.dash :: (cs ++ [c])] (cs.map .flag ++ [.bad c]) []

variable {T stop}

/-! ### One word -/

theorem scan_of_none (h : next T s = (none, s')) : scan T stop s = ([], s'.words) := by
  rw [scan]
  split
  · next h' =>
    rw [h] at h'
    rw [(Prod.mk.inj h').2]
  · next h' =>
    rw [h] at h'
    cases h'

theorem scan_of_some (h : next T s = (some f, s')) : scan T stop s =
    if f.ends stop then ([f], s'.words) else (scan T stop s').map (f :: ·) id := by
  rw [scan]
  split
  · next h' =>
    rw [h] at h'
    cases h'
  · next h' =>
    rw [h] at h'
    obtain ⟨hf, rfl⟩ := Prod.mk.inj h'
    obtain rfl := Option.some.inj hf
    rfl

theorem scan_congr {s₁ s₂ : Scan α} (h : next T s₁ = next T s₂) :
    scan T stop s₁ = scan T stop s₂ := by
  rcases hnext : next T s₂ with ⟨f, s'⟩
  cases f with
  | none => rw [scan_of_none (h.trans hnext), scan_of_none hnext]
  | some f => rw [scan_of_some (h.trans hnext), scan_of_some hnext]

theorem next_nil (T : Table α) (skipped : List (List α)) :
    next T ⟨skipped, [], []⟩ = (none, ⟨[], [], skipped⟩) := rfl

/-- A word that is no option is passed over. -/
theorem scan_plain (hw : T.isOption w = false) :
    scan T stop ⟨skipped, [], w :: words⟩ = scan T stop ⟨skipped ++ [w], [], words⟩ := by
  refine scan_congr ?_
  change seek T skipped (w :: words) = seek T (skipped ++ [w]) words
  cases w with
  | nil => rfl
  | cons a w =>
    cases w with
    | nil => rfl
    | cons c cluster => exact if_neg (of_decide_eq_false hw)

/-- An option word is read letter by letter. -/
theorem scan_option {cs : List α} (hne : cs ≠ []) (hno : cs ≠ [T.dash]) :
    scan T stop ⟨skipped, [], (T.dash :: cs) :: words⟩ =
      scan T stop (inWord skipped cs (T.dash :: cs) words) := by
  refine scan_congr ?_
  cases cs with
  | nil => exact absurd rfl hne
  | cons c cluster =>
    have hdashes : ¬ (c = T.dash ∧ cluster = []) := fun ⟨hc, hcl⟩ => hno (by rw [hc, hcl])
    change seek T skipped ((T.dash :: c :: cluster) :: words) =
      (letter T skipped c cluster ((T.dash :: c :: cluster) :: words)).map some id
    rw [seek, if_pos rfl, if_neg hdashes]

theorem next_inWord : next T (inWord skipped (c :: cluster) w words) =
    (letter T skipped c cluster (w :: words)).map some id := rfl

/-- The flags at the front of a word. -/
theorem scan_flags {cs : List α} (hcs : ∀ c ∈ cs, T.takes c = some false ∧ stop c = false)
    (rest : List α) :
    scan T stop (inWord skipped (cs ++ rest) w words) =
      (scan T stop (inWord skipped rest w words)).map (cs.map .flag ++ ·) id := by
  induction cs with
  | nil => rfl
  | cons c cs ih =>
    obtain ⟨⟨htakes, hstop⟩, hcs⟩ := List.forall_mem_cons.mp hcs
    have hletter : letter T skipped c (cs ++ rest) (w :: words) =
        (.flag c, inWord skipped (cs ++ rest) w words) := by
      rw [letter, htakes]
      rfl
    rw [List.cons_append, scan_of_some (next_inWord.trans (congrArg _ hletter)), Item.ends, hstop,
      if_neg Bool.false_ne_true, id, ih hcs, Prod.map_map]
    rfl

/-- A letter with its argument. -/
theorem scan_arg {optarg : List α} {s' : Scan α}
    (h : letter T skipped c cluster (w :: words) = (.arg c optarg, s')) :
    scan T stop (inWord skipped (c :: cluster) w words) =
      (scan T stop s').map (.arg c optarg :: ·) id := by
  rw [scan_of_some (next_inWord.trans (congrArg _ h)), Item.ends, if_neg Bool.false_ne_true]
  rfl

/-- A letter that ends the scan. -/
theorem scan_end {f : Item α} {s' : Scan α}
    (h : letter T skipped c cluster (w :: words) = (f, s')) (hends : f.ends stop = true) :
    scan T stop (inWord skipped (c :: cluster) w words) = ([f], s'.words) := by
  rw [scan_of_some (next_inWord.trans (congrArg _ h)), id, if_pos hends]

omit [DecidableEq α] in
/-- A word with an option in it is not the one of two dashes. -/
theorem ne_dash {cs : List α} {b : Bool} (hmem : c ∈ cs) (hc : T.takes c = some b) :
    cs ≠ [T.dash] := by
  rintro rfl
  rw [List.mem_singleton.mp hmem, T.takes_dash] at hc
  cases hc

theorem exists_of_isOption (hw : T.isOption w = true) :
    ∃ letters, w = T.dash :: letters ∧ letters ≠ [] := by
  unfold Table.isOption at hw
  split at hw
  · exact ⟨_, by rw [of_decide_eq_true hw], List.cons_ne_nil _ _⟩
  · cases hw

/-- A letter after which the scan goes on in the word. -/
def Table.isFlag (T : Table α) (stop : α → Bool) (c : α) : Bool :=
  T.takes c = some false ∧ stop c = false

omit [DecidableEq α] in
theorem Table.isFlag_iff (T : Table α) (stop : α → Bool) :
    T.isFlag stop c = true ↔ T.takes c = some false ∧ stop c = false := decide_eq_true_iff

omit [DecidableEq α] in
/-- The flags at the front of some letters. -/
theorem exists_flags (T : Table α) (stop : α → Bool) (letters : List α) :
    ∃ cs rest, letters = cs ++ rest ∧ (∀ c ∈ cs, T.takes c = some false ∧ stop c = false) ∧
      ∀ c ∈ rest.head?, ¬ (T.takes c = some false ∧ stop c = false) := by
  have hsplit := List.takeWhile_append_dropWhile (p := T.isFlag stop) (l := letters)
  refine ⟨_, _, hsplit.symm, fun c hc => (T.isFlag_iff stop).mp (List.mem_takeWhile_imp hc),
    fun c hc hflag => ?_⟩
  have hno := List.head?_dropWhile_not (T.isFlag stop) letters
  rw [Option.mem_def.mp hc] at hno
  exact Bool.false_ne_true (Eq.trans (Eq.symm hno) ((T.isFlag_iff stop).mpr hflag))

/-! ### The command line -/

variable {fs : List (Item α)} {others rest : List (List α)}

/-- **Options are found as they are spelled.** The other words are passed over. -/
theorem scan_spells (h : Spells T stop words fs others) (skipped rest : List (List α)) :
    scan T stop ⟨skipped, [], words ++ rest⟩ =
      (scan T stop ⟨skipped ++ others, [], rest⟩).map (fs ++ ·) id := by
  induction h generalizing skipped with
  | nil =>
    rw [List.append_nil]
    rfl
  | plain hw h ih =>
    rw [List.cons_append, scan_plain hw, ih, List.append_assoc]
    rfl
  | @flags cs words fs others hne hcs h ih =>
    obtain ⟨c, hc⟩ := List.exists_mem_of_ne_nil cs hne
    have hword : scan T stop (inWord skipped (cs ++ []) (T.dash :: cs) (words ++ rest)) =
        (scan T stop (inWord skipped [] (T.dash :: cs) (words ++ rest))).map
          (cs.map .flag ++ ·) id :=
      scan_flags hcs []
    rw [List.append_nil] at hword
    rw [List.cons_append, scan_option hne (ne_dash hc (hcs c hc).1), hword]
    -- the word is behind
    change Prod.map _ id (scan T stop ⟨skipped, [], words ++ rest⟩) = _
    rw [ih, Prod.map_map]
    congr 1
    exact funext fun fs' => (List.append_assoc _ _ _).symm
  | @attached cs c optarg words fs others hcs hc hne h ih =>
    have hmem : c ∈ cs ++ c :: optarg := List.mem_append_right _ List.mem_cons_self
    have hletter : letter T skipped c optarg ((T.dash :: (cs ++ c :: optarg)) :: (words ++ rest)) =
        (.arg c optarg, ⟨skipped, [], words ++ rest⟩) := by
      simp only [letter, hc, if_pos hne, List.tail_cons]
    rw [List.cons_append, scan_option (List.ne_nil_of_mem hmem) (ne_dash hmem hc),
      scan_flags hcs, scan_arg hletter, ih, Prod.map_map, Prod.map_map]
    congr 1
    exact funext fun fs' => (List.append_assoc _ (.arg c optarg :: fs) _).symm
  | @separate cs c optarg words fs others hcs hc h ih =>
    have hmem : c ∈ cs ++ [c] := List.mem_append_right _ List.mem_cons_self
    have hletter : letter T skipped c [] ((T.dash :: (cs ++ [c])) :: optarg :: (words ++ rest)) =
        (.arg c optarg, ⟨skipped, [], words ++ rest⟩) := by
      simp only [letter, hc, if_neg (not_not_intro rfl), List.tail_cons]
    rw [List.cons_append, List.cons_append, scan_option (List.ne_nil_of_mem hmem)
      (ne_dash hmem hc), scan_flags hcs, scan_arg hletter, ih, Prod.map_map, Prod.map_map]
    congr 1
    exact funext fun fs' => (List.append_assoc _ (.arg c optarg :: fs) _).symm

theorem scan_ends (h : Ends T stop others words fs rest) :
    scan T stop ⟨others, [], words⟩ = (fs, rest) := by
  cases h with
  | finished => exact scan_of_none (next_nil T others)
  | dashes words =>
    have hnext : next T ⟨others, [], [T.dash, T.dash] :: words⟩ =
        (none, ⟨[], [], others ++ words⟩) := by
      change seek T others ([T.dash, T.dash] :: words) = _
      rw [seek, if_pos rfl, if_pos ⟨rfl, rfl⟩]
    exact scan_of_none hnext
  | @stopped cs c more words hcs hc hstop =>
    have hmem : c ∈ cs ++ c :: more := List.mem_append_right _ List.mem_cons_self
    have hletter : letter T others c more ((T.dash :: (cs ++ c :: more)) :: words) =
        (.flag c, inWord others more (T.dash :: (cs ++ c :: more)) words) := by
      rw [letter, hc]
      rfl
    rw [scan_option (List.ne_nil_of_mem hmem) (ne_dash hmem hc), scan_flags hcs,
      scan_end hletter hstop]
    rfl
  | @unknown cs c more words hcs hc hno =>
    have hmem : c ∈ cs ++ c :: more := List.mem_append_right _ List.mem_cons_self
    have hletter : letter T others c more ((T.dash :: (cs ++ c :: more)) :: words) =
        (.bad c, inWord others more (T.dash :: (cs ++ c :: more)) words) := by
      rw [letter, hc]
      rfl
    rw [scan_option (List.ne_nil_of_mem hmem) hno, scan_flags hcs, scan_end hletter rfl]
    rfl
  | @missing cs c hcs hc =>
    have hmem : c ∈ cs ++ [c] := List.mem_append_right _ List.mem_cons_self
    have hletter : letter T others c [] [T.dash :: (cs ++ [c])] = (.bad c, ⟨others, [], []⟩) := by
      simp only [letter, hc, if_neg (not_not_intro rfl), List.tail_cons]
    rw [scan_option (List.ne_nil_of_mem hmem) (ne_dash hmem hc), scan_flags hcs,
      scan_end hletter rfl]
    rfl

/-- Every command line can be read in such a way. -/
theorem exists_spells (T : Table α) (stop : α → Bool) (words : List (List α)) :
    ∃ front tail fs others, words = front ++ tail ∧ Spells T stop front fs others ∧
      ∀ skipped, ∃ fs' rest, Ends T stop (skipped ++ others) tail fs' rest := by
  -- a word, and sometimes the next one with it
  induction hlen : words.length using Nat.strong_induction_on generalizing words with
  | _ n ih =>
  have hend : ∀ {tail : List (List α)},
      (∀ skipped, ∃ fs' rest, Ends T stop skipped tail fs' rest) →
      ∃ front tail' fs others, tail = front ++ tail' ∧ Spells T stop front fs others ∧
        ∀ skipped, ∃ fs' rest, Ends T stop (skipped ++ others) tail' fs' rest :=
    fun {tail} h => ⟨[], tail, [], [], rfl, .nil, fun skipped => h (skipped ++ [])⟩
  cases words with
  | nil => exact hend fun skipped => ⟨_, _, .finished⟩
  | cons w words =>
    have hlt : words.length < n := by rw [← hlen]; exact Nat.lt_succ_self _
    cases hw : T.isOption w with
    | false =>
      obtain ⟨front, tail, fs, others, rfl, hspells, htail⟩ := ih _ hlt words rfl
      refine ⟨w :: front, tail, fs, w :: others, rfl, .plain hw hspells, fun skipped => ?_⟩
      have hskip := htail (skipped ++ [w])
      rwa [List.append_assoc] at hskip
    | true =>
      obtain ⟨letters, rfl, hne⟩ := exists_of_isOption hw
      by_cases hdashes : letters = [T.dash]
      · rw [hdashes]
        exact hend fun skipped => ⟨_, _, .dashes _⟩
      obtain ⟨cs, rest, rfl, hcs, hrest⟩ := exists_flags T stop letters
      cases rest with
      | nil =>
        obtain ⟨front, tail, fs, others, rfl, hspells, htail⟩ := ih _ hlt words rfl
        rw [List.append_nil] at hne ⊢
        exact ⟨_ :: front, tail, _, others, rfl, .flags hne hcs hspells, htail⟩
      | cons c more =>
        cases hc : T.takes c with
        | none => exact hend fun skipped => ⟨_, _, .unknown more _ hcs hc hdashes⟩
        | some takes =>
          cases takes with
          | false =>
            have hstop : stop c = true := by
              by_contra hno
              exact hrest c rfl ⟨hc, Bool.eq_false_of_not_eq_true hno⟩
            exact hend fun skipped => ⟨_, _, .stopped more _ hcs hc hstop⟩
          | true =>
            by_cases hmore : more = []
            · rw [hmore]
              cases words with
              | nil => exact hend fun skipped => ⟨_, _, .missing hcs hc⟩
              | cons optarg words =>
                -- whatever the next word is, it is the argument
                obtain ⟨front, tail, fs, others, rfl, hspells, htail⟩ :=
                  ih _ (Nat.lt_of_succ_lt hlt) words rfl
                exact ⟨_ :: optarg :: front, tail, _, others, rfl, .separate hcs hc hspells, htail⟩
            · obtain ⟨front, tail, fs, others, rfl, hspells, htail⟩ := ih _ hlt words rfl
              exact ⟨_ :: front, tail, _, others, rfl, .attached hcs hc hmore hspells, htail⟩

/-- **What a scan reads.** It finds `fs` and leaves `rest` exactly when the words are some that
spell options, other words among them, and an ending. -/
theorem scan_eq_iff : scan T stop ⟨[], [], words⟩ = (fs, rest) ↔
    ∃ front tail fs₁ fs₂ others, words = front ++ tail ∧ Spells T stop front fs₁ others ∧
      Ends T stop others tail fs₂ rest ∧ fs = fs₁ ++ fs₂ := by
  have hread : ∀ {front tail fs₁ fs₂ others rest}, Spells T stop front fs₁ others →
      Ends T stop others tail fs₂ rest →
      scan T stop ⟨[], [], front ++ tail⟩ = (fs₁ ++ fs₂, rest) :=
    fun hspells hends => by
      rw [scan_spells hspells, List.nil_append, scan_ends hends]
      rfl
  constructor
  · intro h
    obtain ⟨front, tail, fs₁, others, rfl, hspells, htail⟩ := exists_spells T stop words
    obtain ⟨fs₂, rest', hends⟩ := htail []
    rw [hread hspells hends] at h
    obtain ⟨rfl, rfl⟩ := Prod.mk.inj h
    exact ⟨front, tail, fs₁, fs₂, others, rfl, hspells, hends, rfl⟩
  · rintro ⟨front, tail, fs₁, fs₂, others, rfl, hspells, hends, rfl⟩
    exact hread hspells hends

end ShortOptions
