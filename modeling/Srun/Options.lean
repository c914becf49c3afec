import Srun.Descriptors
import Srun.Request

/-!
# Options of srunctl

The loop over `getopt` in `srunctl.cpp` that builds the request of `srunctl -c`.

An option sets fields of its own, except that `-q` looks at the two modes, which `-o` and
`-e` set as well. It gives way to them: a mode that is `FILE` already stays so, and a mode
that becomes `FILE` later no longer depends on what it was. Hence two options with different
letters commute (`Options.set_comm`), and the order of a command line without repeated
letters has no influence (`Options.loop_perm`).
-/

namespace Srun

/-- An option that sets something, with its `optarg`. -/
inductive Opt
  | m (optarg : String)
  | t (optarg : String)
  | u (optarg : String)
  | r (optarg : String)
  | b
  | q
  | n
  | o (optarg : String)
  | e (optarg : String)
  deriving DecidableEq

/-- The option character that `getopt` returns. -/
def Opt.letter : Opt → Char
  | m _ => 'm'
  | t _ => 't'
  | u _ => 'u'
  | r _ => 'r'
  | b => 'b'
  | q => 'q'
  | n => 'n'
  | o _ => 'o'
  | e _ => 'e'

/-- What a call of `getopt` delivers; `unknown` is anything the `switch` has no case for. -/
inductive Getopt
  | opt (o : Opt)
  | c
  | unknown

/-- The variables of `main` that the loop writes, with their values before it. -/
structure Options where
  request : Request := { timeout := 0, outmode := .msg, errmode := .msg }
  quiet : Bool := false

namespace Options

/-- The cases of the `switch` that set something. -/
def set (s : Options) : Opt → Options
  | .m optarg => { s with request := { s.request with model := optarg } }
  | .t optarg => { s with request := { s.request with timeout := atoi optarg } }
  | .u optarg => { s with request := { s.request with user := optarg } }
  | .r optarg => { s with request := { s.request with chroot := optarg } }
  | .b => { s with request := { s.request with backend := true } }
  | .q =>
    { request :=
        { s.request with
          outmode := if s.request.outmode = .msg then .ign else s.request.outmode
          errmode := if s.request.errmode = .msg then .ign else s.request.errmode }
      quiet := true }
  | .n => { s with request := { s.request with network := true } }
  | .o optarg => { s with request := { s.request with outmode := .file, outfile := optarg } }
  | .e optarg => { s with request := { s.request with errmode := .file, errfile := optarg } }

/-- The loop, on what `getopt` delivers until it returns -1; `none` when it ends in
`exit(-1)`. -/
def loop (s : Options) : List Getopt → Option Options
  | [] => some s
  | .opt o :: rest => loop (s.set o) rest
  -- the command starts here
  | .c :: _ => some s
  | .unknown :: _ => none

end Options

namespace CaptureStream

/-- The file of a stream in a request. -/
def file : CaptureStream → Request → String
  | out, r => r.outfile
  | err, r => r.errfile

/-- The option that sends a stream to a file. -/
def opt : CaptureStream → String → Opt
  | out, path => .o path
  | err, path => .e path

end CaptureStream

namespace Options

variable {opts opts' : List Opt} {s : Options} {o : Opt} {stream : CaptureStream}

/-- The loop over options is a fold, up to where it is left. -/
theorem loop_append (s : Options) (opts : List Opt) (rest : List Getopt) :
    s.loop (opts.map .opt ++ rest) = (opts.foldl set s).loop rest := by
  induction opts generalizing s with
  | nil => rfl
  | cons o opts ih => exact ih (s.set o)

/-- Options with different letters commute. -/
theorem set_comm (s : Options) {o o' : Opt} (h : o.letter ≠ o'.letter) :
    (s.set o).set o' = (s.set o').set o := by
  cases o <;> cases o' <;> first | exact absurd rfl h | rfl

/-- Without repeated letters the order is of no importance. -/
theorem foldl_set_perm (s : Options) (h : (opts.map Opt.letter).Nodup) (hperm : opts.Perm opts') :
    opts.foldl set s = opts'.foldl set s := by
  refine hperm.foldl_eq' (fun o ho o' ho' s => ?_) s
  by_cases heq : o.letter = o'.letter
  -- the same letter is the same occurrence
  · rw [List.inj_on_of_nodup_map h ho ho' heq]
  · exact set_comm s heq

/-! ### What becomes of a mode -/

/-- The options that have to do with a mode are `-q` and the one that sets it. -/
theorem mode_set (ho : ∀ path, o ≠ stream.opt path) :
    stream.mode (s.set o).request =
      if o = .q ∧ stream.mode s.request = .msg then .ign else stream.mode s.request := by
  cases stream with
  | out =>
    cases o with
    | o path => exact absurd rfl (ho path)
    | _ => simp [set, CaptureStream.mode]
  | err =>
    cases o with
    | e path => exact absurd rfl (ho path)
    | _ => simp [set, CaptureStream.mode]

/-- Where no option names a file, only `-q` changes a mode. -/
theorem mode_foldl_set (h : ∀ path, stream.opt path ∉ opts) :
    stream.mode (opts.foldl set s).request =
      if .q ∈ opts ∧ stream.mode s.request = .msg then .ign else stream.mode s.request := by
  induction opts generalizing s with
  | nil => simp
  | cons o opts ih =>
    rw [List.foldl_cons, ih fun path hmem => h path (List.mem_cons_of_mem o hmem),
      mode_set fun path heq => h path (heq ▸ List.mem_cons_self)]
    -- a second `-q` finds no mode that is `MSG`
    by_cases hq : o = .q
    · by_cases hm : stream.mode s.request = .msg <;> simp [hq, hm]
    · simp [hq, Ne.symm hq]

theorem mode_set_opt (s : Options) (stream : CaptureStream) (path : String) :
    stream.mode (s.set (stream.opt path)).request = .file ∧
      stream.file (s.set (stream.opt path)).request = path := by
  cases stream <;> exact ⟨rfl, rfl⟩

/-- An option that names a file might as well be the last one. -/
theorem mode_foldl_set_opt {path : String} (h : (opts.map Opt.letter).Nodup)
    (hmem : stream.opt path ∈ opts) :
    stream.mode (opts.foldl set s).request = .file ∧
      stream.file (opts.foldl set s).request = path := by
  have hperm : opts.Perm (opts.erase (stream.opt path) ++ [stream.opt path]) :=
    (List.perm_cons_erase hmem).trans (List.perm_append_singleton _ _).symm
  rw [foldl_set_perm s h hperm, List.foldl_append, List.foldl_cons, List.foldl_nil]
  exact mode_set_opt _ stream path

/-- **The order of the options.** Two orders of options without repeated letters lead to the
same request and the same `quiet`, whether the command starts then or the options are at an
end. In this request a stream goes to the file that was named for it; when there is none, it
is ignored with `-q`, and goes into the response without. -/
theorem loop_perm (h : (opts.map Opt.letter).Nodup) (hperm : opts.Perm opts') :
    ∃ s : Options,
      (loop {} (opts.map .opt) = some s ∧ loop {} (opts'.map .opt) = some s) ∧
      (∀ rest, loop {} (opts.map .opt ++ .c :: rest) = some s ∧
        loop {} (opts'.map .opt ++ .c :: rest) = some s) ∧
      ∀ stream : CaptureStream,
        (∀ path, stream.opt path ∈ opts →
          stream.mode s.request = .file ∧ stream.file s.request = path) ∧
        ((∀ path, stream.opt path ∉ opts) →
          stream.mode s.request = if .q ∈ opts then .ign else .msg) := by
  have hloop : ∀ {os : List Opt}, opts.Perm os → ∀ rest : List Getopt,
      loop {} (os.map .opt ++ rest) = (opts.foldl set {}).loop rest := fun hos rest => by
    rw [loop_append, foldl_set_perm {} h hos]
  refine ⟨opts.foldl set {}, ?_, fun rest => ?_, fun stream => ⟨fun path => ?_, fun hno => ?_⟩⟩
  · have hend : ∀ {os : List Opt}, opts.Perm os →
        loop {} (os.map .opt) = some (opts.foldl set {}) := fun hos => by
      simpa only [List.append_nil, loop] using hloop hos []
    exact ⟨hend (.refl _), hend hperm⟩
  · exact ⟨hloop (.refl _) _, hloop hperm _⟩
  · exact mode_foldl_set_opt h
  · rw [mode_foldl_set hno]
    -- both modes are `MSG` at the start
    have hmsg : stream.mode ({} : Options).request = .msg := by cases stream <;> rfl
    simp [hmsg]

/-- `-q` before and after `-o`. -/
theorem loop_perm_quiet_file :
    ∃ s : Options, loop {} [.opt .q, .opt (.o "x")] = some s ∧
      loop {} [.opt (.o "x"), .opt .q] = some s ∧
      s.request.outmode = .file ∧ s.request.outfile = "x" ∧ s.request.errmode = .ign := by
  have hperm : [Opt.q, .o "x"].Perm [.o "x", .q] := .swap _ _ []
  obtain ⟨s, ⟨h, h'⟩, -, hmode⟩ := loop_perm (by decide) hperm
  have hout := (hmode .out).1 "x" (by decide)
  have herr := (hmode .err).2 (by simp [CaptureStream.opt])
  exact ⟨s, h, h', hout.1, hout.2, by simpa [CaptureStream.mode] using herr⟩

end Options

end Srun
