import Srun.Framework.ShortOptions
import Srun.Options
import Srun.Session

/-!
# The command line of srunctl

`main` of `srunctl.cpp` up to the call of `Srunc`: the two words `list` and `stop`, and the
options of a command, which `getopt` finds. `getopt` is that of GNU, without POSIXLY_CORRECT:
it passes over words that are no options, and reads on behind them.

`invocation_eq_run_iff` says which command lines run a command, and with which request. The
options may be spelled in any of their forms, up to an ending: `-c` as the last letter of its
word, after which everything belongs to the command, whatever it looks like; or the end of the
options, where the command is what `getopt` has passed over. Words before `-c` that are no
options are lost, and a `-c` that is not the last letter of its word makes that word the
command.
-/

namespace Srun

open ShortOptions

/-- The options of `main`, as `getopt` takes them. -/
def optstring : String := "o:e:qnbt:u:r:m:c"

/-- Whether a letter of an option string takes an argument; `none` for another letter. A colon is
no letter, it says that the one before it takes an argument. -/
def takesIn : List Char → Char → Option Bool
  | [], _ => none
  | x :: rest, c => if c = x ∧ c ≠ ':' then some (rest.head? = some ':') else takesIn rest c

def optionTable : Table Char := ⟨'-', takesIn optstring.toList, by decide⟩

namespace Getopt

/-- The cases of the `switch`. A letter that `getopt` does not know, and one whose argument is
missing, come to its default. -/
def ofItem : Item Char → Getopt
  | .arg 'm' optarg => .opt (.m (String.ofList optarg))
  | .arg 't' optarg => .opt (.t (String.ofList optarg))
  | .arg 'u' optarg => .opt (.u (String.ofList optarg))
  | .arg 'r' optarg => .opt (.r (String.ofList optarg))
  | .flag 'b' => .opt .b
  | .flag 'q' => .opt .q
  | .flag 'n' => .opt .n
  | .arg 'o' optarg => .opt (.o (String.ofList optarg))
  | .arg 'e' optarg => .opt (.e (String.ofList optarg))
  | .flag 'c' => .c
  | _ => .unknown

end Getopt

namespace Srunctl

/-- The calls of `getopt` in the loop, which is left after `-c`, and the words from `optind` on
afterwards. -/
def getopts (words : List String) : List Getopt × List String :=
  (scan optionTable (· = 'c') ⟨[], [], words.map String.toList⟩).map (·.map .ofItem)
    (·.map String.ofList)

/-- What the words behind the program's name make `main` call, and whether it is quiet then;
`none` when it prints its usage and returns -1. -/
def invocation : List String → Option (Call × Bool)
  | [] => none
  | word :: words =>
    if word = "list" then some (.list, false)
    else if word = "stop" then
      if words = [] then none else some (.stop ((words.map atoi).filter (0 < ·)), false)
    else
      let (found, args) := getopts (word :: words)
      (Options.loop {} found).bind fun s =>
        if args = [] then none else some (.run { s.request with args := args }, s.quiet)

end Srunctl

namespace Opt

/-- What the scan finds for an option. -/
def item : Opt → Item Char
  | m optarg => .arg 'm' optarg.toList
  | t optarg => .arg 't' optarg.toList
  | u optarg => .arg 'u' optarg.toList
  | r optarg => .arg 'r' optarg.toList
  | b => .flag 'b'
  | q => .flag 'q'
  | n => .flag 'n'
  | o optarg => .arg 'o' optarg.toList
  | e optarg => .arg 'e' optarg.toList

/-- An option without an argument. Only these can stand before another letter in a word. -/
def isFlag : Opt → Bool
  | b | q | n => true
  | _ => false

theorem ofItem_item (o : Opt) : Getopt.ofItem o.item = .opt o := by
  cases o <;> simp [item, Getopt.ofItem]

theorem map_ofItem_item (opts : List Opt) :
    (opts.map item).map Getopt.ofItem = opts.map .opt := by
  rw [List.map_map]
  exact List.map_congr_left fun o _ => ofItem_item o

theorem map_item_of_isFlag {opts : List Opt} (h : ∀ o ∈ opts, o.isFlag = true) :
    opts.map item = (opts.map letter).map .flag := by
  rw [List.map_map]
  refine List.map_congr_left fun o ho => ?_
  have hflag := h o ho
  cases o <;> first | rfl | cases hflag

end Opt

namespace Srunctl

/-! ### The letters -/

theorem mem_of_takesIn {optstring : List Char} {c : Char} {b : Bool}
    (h : takesIn optstring c = some b) : c ∈ optstring := by
  induction optstring with
  | nil => cases h
  | cons x rest ih =>
    rw [takesIn] at h
    split at h
    · next hx => exact hx.1 ▸ List.mem_cons_self
    · exact List.mem_cons_of_mem x (ih h)

/-- The letters of the table: six take an argument, and four do not, of which `c` is one. -/
theorem mem_letters {c : Char} {b : Bool} (h : optionTable.takes c = some b) :
    c ∈ if b then ['o', 'e', 't', 'u', 'r', 'm'] else ['q', 'n', 'b', 'c'] := by
  have hmem :
      c ∈ ['o', ':', 'e', ':', 'q', 'n', 'b', 't', ':', 'u', ':', 'r', ':', 'm', ':', 'c'] :=
    mem_of_takesIn h
  simp only [List.mem_cons, List.not_mem_nil, or_false] at hmem
  -- the colons are in the string too, but no entry of the table
  rcases hmem with rfl | rfl | rfl | rfl | rfl | rfl | rfl | rfl | rfl | rfl | rfl | rfl | rfl |
    rfl | rfl | rfl <;> revert b <;> decide

/-- The `switch` has a case for every letter with an argument. -/
theorem exists_item_arg {c : Char} (optarg : List Char)
    (h : optionTable.takes c = some true) : ∃ o : Opt, o.item = .arg c optarg := by
  -- the argument is taken as it is, whatever the option makes of it
  have hopt : ∀ o : String → Opt, (∀ text, (o text).item = .arg c text.toList) →
      ∃ o : Opt, o.item = .arg c optarg := fun o ho =>
    ⟨o (String.ofList optarg), by rw [ho, String.toList_ofList]⟩
  have hmem : c ∈ ['o', 'e', 't', 'u', 'r', 'm'] := mem_letters h
  simp only [List.mem_cons, List.not_mem_nil, or_false] at hmem
  rcases hmem with rfl | rfl | rfl | rfl | rfl | rfl
  · exact hopt .o fun _ => rfl
  · exact hopt .e fun _ => rfl
  · exact hopt .t fun _ => rfl
  · exact hopt .u fun _ => rfl
  · exact hopt .r fun _ => rfl
  · exact hopt .m fun _ => rfl

/-- And for every letter without, which sets something unless it starts the command. -/
theorem exists_letter {c : Char} (h : optionTable.takes c = some false) (hc : c ≠ 'c') :
    ∃ o : Opt, o.isFlag = true ∧ o.letter = c := by
  have hmem : c ∈ ['q', 'n', 'b', 'c'] := mem_letters h
  simp only [List.mem_cons, List.not_mem_nil, or_false] at hmem
  rcases hmem with rfl | rfl | rfl | rfl
  · exact ⟨.q, rfl, rfl⟩
  · exact ⟨.n, rfl, rfl⟩
  · exact ⟨.b, rfl, rfl⟩
  · exact absurd rfl hc

/-- The letters after which the scan goes on in their word: they take no argument, and the loop
is not left. -/
theorem exists_letters {cs : List Char}
    (hcs : ∀ c ∈ cs, optionTable.takes c = some false ∧ decide (c = 'c') = false) :
    ∃ opts : List Opt, (∀ o ∈ opts, o.isFlag = true) ∧ cs = opts.map Opt.letter := by
  induction cs with
  | nil => exact ⟨[], List.forall_mem_nil _, rfl⟩
  | cons c cs ih =>
    obtain ⟨⟨hc, hne⟩, htail⟩ := List.forall_mem_cons.mp hcs
    obtain ⟨opts, hflags, rfl⟩ := ih htail
    obtain ⟨o, hflag, rfl⟩ := exists_letter hc (of_decide_eq_false hne)
    exact ⟨o :: opts, List.forall_mem_cons.mpr ⟨hflag, hflags⟩, rfl⟩

theorem takes_letter {o : Opt} (h : o.isFlag = true) :
    optionTable.takes o.letter = some false ∧ decide (o.letter = 'c') = false := by
  cases o <;> first | exact ⟨by decide, by decide⟩ | cases h

theorem takes_letters {opts : List Opt} (h : ∀ o ∈ opts, o.isFlag = true) :
    ∀ c ∈ opts.map Opt.letter, optionTable.takes c = some false ∧ decide (c = 'c') = false := by
  intro c hc
  obtain ⟨o, ho, rfl⟩ := List.mem_map.mp hc
  exact takes_letter (h o ho)

/-- What words spell, the `switch` has cases for. The induction is on the way the scan takes
through the words; a word of flags gives several options, and one with an argument ends with
it. -/
theorem exists_opts {words others : List (List Char)} {fs : List (Item Char)}
    (h : Spells optionTable (· = 'c') words fs others) :
    ∃ opts : List Opt, fs = opts.map Opt.item := by
  -- the letters of a word, up to the last one
  have hflags : ∀ {cs : List Char},
      (∀ c ∈ cs, optionTable.takes c = some false ∧ decide (c = 'c') = false) →
      ∃ opts : List Opt, cs.map .flag = opts.map Opt.item := fun hcs => by
    obtain ⟨opts, hflag, rfl⟩ := exists_letters hcs
    exact ⟨opts, (Opt.map_item_of_isFlag hflag).symm⟩
  induction h with
  | nil => exact ⟨[], rfl⟩
  | plain hw h ih => exact ih
  | flags hne hcs h ih =>
    obtain ⟨opts, rfl⟩ := ih
    obtain ⟨flags, hmap⟩ := hflags hcs
    exact ⟨flags ++ opts, by rw [hmap, List.map_append]⟩
  -- the argument is the rest of the word, or the next one
  | @attached cs c optarg words fs others hcs hc hne h ih =>
    obtain ⟨opts, rfl⟩ := ih
    obtain ⟨flags, hmap⟩ := hflags hcs
    obtain ⟨o, ho⟩ := exists_item_arg optarg hc
    exact ⟨flags ++ o :: opts, by rw [hmap, List.map_append, List.map_cons, ho]⟩
  | @separate cs c optarg words fs others hcs hc h ih =>
    obtain ⟨opts, rfl⟩ := ih
    obtain ⟨flags, hmap⟩ := hflags hcs
    obtain ⟨o, ho⟩ := exists_item_arg optarg hc
    exact ⟨flags ++ o :: opts, by rw [hmap, List.map_append, List.map_cons, ho]⟩

/-! ### What runs a command -/

/-- The words spell the options, with the `others` among them. -/
def Spelled (words : List String) (opts : List Opt) (others : List String) : Prop :=
  Spells optionTable (· = 'c') (words.map String.toList) (opts.map Opt.item)
    (others.map String.toList)

/-- A word of flags that `-c` follows in it. -/
def commandWord (flags : List Opt) (more : List Char) : String :=
  String.ofList ('-' :: (flags.map Opt.letter ++ 'c' :: more))

/-- How the options end, after the words `others`: the rest of the command line, its flags,
and the command. -/
inductive Ending (others : List String) : List String → List Opt → List String → Prop
  | finished : Ending others [] [] others
  | dashes (words : List String) : Ending others ("--" :: words) [] (others ++ words)
  /-- With something behind the letter the word is not left. -/
  | command {flags : List Opt} (hflags : ∀ o ∈ flags, o.isFlag = true) (more : List Char)
      (words : List String) :
      Ending others (commandWord flags more :: words) flags
        (if more = [] then words else commandWord flags more :: words)

theorem toList_commandWord (flags : List Opt) (more : List Char) :
    (commandWord flags more).toList = '-' :: (flags.map Opt.letter ++ 'c' :: more) :=
  String.toList_ofList

theorem map_ofList_toList (words : List String) :
    (words.map String.toList).map String.ofList = words := by
  rw [List.map_map]
  exact (List.map_congr_left fun w _ => String.ofList_toList).trans (List.map_id words)

theorem map_toList_ofList (words : List (List Char)) :
    (words.map String.ofList).map String.toList = words := by
  rw [List.map_map]
  exact (List.map_congr_left fun w _ => String.toList_ofList).trans (List.map_id words)

theorem loop_flags (s : Options) {flags : List Opt} (h : ∀ o ∈ flags, o.isFlag = true)
    (rest : List Getopt) :
    s.loop (((flags.map Opt.letter).map Item.flag).map Getopt.ofItem ++ rest) =
      (flags.foldl Options.set s).loop rest := by
  rw [← Opt.map_item_of_isFlag h, Opt.map_ofItem_item, Options.loop_append]

/-- An ending is one for the scan, and the loop of `main` sets its flags and accepts it. -/
theorem ends_of_ending {others tail args : List String} {flags : List Opt}
    (h : Ending others tail flags args) :
    ∃ fs, Ends optionTable (· = 'c') (others.map String.toList) (tail.map String.toList) fs
        (args.map String.toList) ∧
      ∀ s : Options, s.loop (fs.map Getopt.ofItem) = some (flags.foldl Options.set s) := by
  cases h with
  | finished => exact ⟨[], .finished, fun s => rfl⟩
  | dashes words =>
    refine ⟨[], ?_, fun s => rfl⟩
    rw [List.map_append]
    exact .dashes (List.map String.toList words)
  | command hflags more words =>
    refine ⟨(flags.map Opt.letter).map .flag ++ [.flag 'c'], ?_, fun s => ?_⟩
    · rw [List.map_cons, toList_commandWord, apply_ite (List.map String.toList), List.map_cons,
        toList_commandWord]
      exact .stopped more _ (takes_letters hflags) (by decide) rfl
    · rw [List.map_append, loop_flags s hflags]
      rfl

/-- An ending for the scan is one, unless a letter is wrong: then the loop stops at the default
case and `main` prints its usage. -/
theorem ending_of_ends {others tail : List String} {fs : List (Item Char)}
    {rest : List (List Char)}
    (h : Ends optionTable (· = 'c') (others.map String.toList) (tail.map String.toList) fs rest) :
    (∀ s : Options, s.loop (fs.map Getopt.ofItem) = none) ∨
      ∃ flags args, rest = args.map String.toList ∧ Ending others tail flags args ∧
        ∀ s : Options, s.loop (fs.map Getopt.ofItem) = some (flags.foldl Options.set s) := by
  -- the flags before the wrong letter do not matter
  have hbad : ∀ {cs : List Char} {c : Char},
      (∀ c ∈ cs, optionTable.takes c = some false ∧ decide (c = 'c') = false) →
      ∀ s : Options, s.loop ((cs.map Item.flag ++ [Item.bad c]).map Getopt.ofItem) = none :=
    fun hcs s => by
      obtain ⟨flags, hflags, rfl⟩ := exists_letters hcs
      rw [List.map_append, loop_flags s hflags]
      rfl
  -- the words as strings come back when the cases are known
  generalize hothers : others.map String.toList = others' at h
  generalize htail : tail.map String.toList = tail' at h
  cases h with
  | finished =>
    obtain rfl := List.map_eq_nil_iff.mp htail
    exact Or.inr ⟨[], others, hothers.symm, .finished, fun s => rfl⟩
  | dashes words =>
    obtain ⟨w, words, rfl, hw, rfl⟩ := List.map_eq_cons_iff.mp htail
    obtain rfl : w = "--" := String.toList_injective (hw.trans rfl)
    exact Or.inr
      ⟨[], others ++ words, by rw [List.map_append, hothers], .dashes words, fun s => rfl⟩
  -- the loop is left at `c` only, wherever it stands in its word
  | @stopped cs c more words hcs hc hstop =>
    obtain rfl : c = 'c' := of_decide_eq_true hstop
    obtain ⟨flags, hflags, rfl⟩ := exists_letters hcs
    obtain ⟨w, words, rfl, hw, rfl⟩ := List.map_eq_cons_iff.mp htail
    obtain rfl : w = commandWord flags more :=
      String.toList_injective (hw.trans (toList_commandWord flags more).symm)
    refine Or.inr ⟨flags, _, ?_, .command hflags more words, fun s => ?_⟩
    · rw [apply_ite (List.map String.toList), List.map_cons, toList_commandWord]
      rfl
    · rw [List.map_append, loop_flags s hflags]
      rfl
  -- a letter that is not in the table, or one without its argument
  | unknown more words hcs hc hno => exact Or.inl (hbad hcs)
  | missing hcs hc => exact Or.inl (hbad hcs)

/-- What `getopt` finds on a command line: the options that the front spells, and then what the
ending gives. The words that are no options stand before the rest. -/
theorem getopts_append {front tail others : List String} {opts : List Opt}
    {fs : List (Item Char)} {rest : List (List Char)} (hspelled : Spelled front opts others)
    (hends : Ends optionTable (· = 'c') (others.map String.toList) (tail.map String.toList) fs
      rest) :
    getopts (front ++ tail) =
      (opts.map .opt ++ fs.map Getopt.ofItem, rest.map String.ofList) := by
  have hscan := scan_eq_iff.mpr ⟨_, _, _, _, _, List.map_append, hspelled, hends, rfl⟩
  rw [getopts, hscan, Prod.map_apply, List.map_append, Opt.map_ofItem_item]

/-- Without the two words, the options say what is run. An empty command line has no options and
no command, and so it fits. -/
theorem invocation_of_ne {words : List String} (hlist : words.head? ≠ some "list")
    (hstop : words.head? ≠ some "stop") :
    invocation words = (Options.loop {} (getopts words).1).bind fun s =>
      if (getopts words).2 = [] then none
      else some (.run { s.request with args := (getopts words).2 }, s.quiet) := by
  cases words with
  | nil =>
    have hnone : getopts [] = ([], []) := by
      rw [getopts, List.map_nil, scan_of_none (next_nil _ _)]
      rfl
    rw [hnone]
    rfl
  | cons word words =>
    rw [invocation, if_neg fun h => hlist (congrArg some h),
      if_neg fun h => hstop (congrArg some h)]

/-- **The command lines of a command.** `main` runs a command exactly for a command line that
spells options, in whatever form and with other words among them, and then ends in one of the
three ways; what it runs is the request that these options make, with the words the ending
leaves. -/
theorem invocation_eq_run_iff {words : List String} {request : Request} {quiet : Bool} :
    invocation words = some (.run request, quiet) ↔
      words.head? ≠ some "list" ∧ words.head? ≠ some "stop" ∧
        ∃ front tail opts flags others args,
          words = front ++ tail ∧ Spelled front opts others ∧ Ending others tail flags args ∧
          args ≠ [] ∧
          request = { ((opts ++ flags).foldl Options.set {}).request with args := args } ∧
          quiet = ((opts ++ flags).foldl Options.set {}).quiet := by
  -- the two words are looked at before any option
  by_cases hlist : words.head? = some "list"
  · obtain ⟨words, rfl⟩ := List.head?_eq_some_iff.mp hlist
    exact iff_of_false (fun h => by cases h) fun h => h.1 rfl
  by_cases hstop : words.head? = some "stop"
  · obtain ⟨words, rfl⟩ := List.head?_eq_some_iff.mp hstop
    refine iff_of_false (fun h => ?_) fun h => h.2.1 rfl
    rw [invocation, if_neg (by decide), if_pos rfl] at h
    split at h <;> cases h
  rw [invocation_of_ne hlist hstop]
  constructor
  · intro h
    -- every command line spells something up to its ending
    obtain ⟨⟨found, rest⟩, hscan⟩ : ∃ r, scan optionTable (· = 'c')
        ⟨[], [], words.map String.toList⟩ = r := ⟨_, rfl⟩
    obtain ⟨front, tail, fs, fs', others, hwords, hspells, hends, -⟩ := scan_eq_iff.mp hscan
    obtain ⟨front, tail, rfl, rfl, rfl⟩ := List.map_eq_append_iff.mp hwords
    obtain ⟨opts, rfl⟩ := exists_opts hspells
    rw [← map_toList_ofList others] at hspells hends
    rw [getopts_append hspells hends, Options.loop_append] at h
    refine ⟨hlist, hstop, front, tail, opts, ?_⟩
    -- a wrong letter runs nothing, so that the ending is one of the three
    rcases ending_of_ends hends with hnone | ⟨flags, args, rfl, hending, hloop⟩
    · rw [hnone] at h
      cases h
    · rw [hloop, map_ofList_toList, Option.bind_some, ← List.foldl_append] at h
      obtain ⟨hne, heq⟩ := Option.ite_none_left_eq_some.mp h
      cases heq
      exact ⟨flags, _, args, rfl, hspells, hending, hne, rfl, rfl⟩
  -- the scan finds what is spelled, and the loop sets it
  · rintro ⟨-, -, front, tail, opts, flags, others, args, rfl, hspelled, hending, hne, rfl, rfl⟩
    obtain ⟨fs, hends, hloop⟩ := ends_of_ending hending
    rw [getopts_append hspelled hends, Options.loop_append, hloop, map_ofList_toList,
      Option.bind_some, if_neg hne, List.foldl_append]

/-- A word that is no option, options in a cluster with the argument of the last one, and a
command with a word that looks like an option. -/
theorem invocation_eq_run_iff_cluster :
    invocation ["x", "-qnt5", "-bc", "ls", "-n"] = some (.run
      { timeout := 5, outmode := .ign, errmode := .ign, network := true, backend := true,
        args := ["ls", "-n"] }, true) := by
  have hspelled : Spelled ["x", "-qnt5"] [.q, .n, .t "5"] ["x"] :=
    .plain rfl (.attached (takes_letters (show ∀ o ∈ [Opt.q, .n], o.isFlag = true by decide))
      (show optionTable.takes 't' = some true by decide) (show ['5'] ≠ [] by decide) .nil)
  have hending : Ending ["x"] ["-bc", "ls", "-n"] [.b] ["ls", "-n"] :=
    .command (show ∀ o ∈ [Opt.b], o.isFlag = true by decide) [] ["ls", "-n"]
  exact invocation_eq_run_iff.mpr ⟨by decide, by decide, _, _, _, _, _, _, rfl, hspelled, hending,
    by decide, by decide +kernel, by decide +kernel⟩

end Srunctl
end Srun
