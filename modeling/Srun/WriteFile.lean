import Srun.Framework.Buffered
import Srun.Framework.Machine
import Srun.Proc
import Srun.Proto3

/-!
# Failures of `write_file`

`write_file` of `utils.cpp` down to the calls of the operating system. `fopen`, `fwrite` and
`fclose` are library calls; the last two work on a buffered stream, and it is up to them
when bytes go from the buffer to the system.

The result of `fwrite` is looked at. That of `fclose`, which a scope guard calls, is not,
and bytes that fit into the buffer reach the system there. `reports_failure_iff` says that
`write_file` tells of a failure exactly when it is not one of `fclose`. A cgroup value is
short enough to get to the kernel in `fclose`, so that a limit that the kernel refuses does
not stop `handle_request` (`not_reports_failure`).
-/

namespace Srun

/-- Where `write_file` is; `threw` says that the guard runs because of an exception. -/
inductive WriteFilePc
  | fopen
  | fwrite
  | fclose (threw : Bool)
  | done (threw : Bool)
  deriving DecidableEq

/-- What happens in `write_file`. -/
inductive WriteFileEvent
  | fopen (ok : Bool)
  /-- Within `fwrite` or `fclose`. -/
  | stdio (a : Buffered.Act)
  | fwriteEnd
  | fcloseEnd
  deriving DecidableEq

/-- A call of `write_file`. -/
structure WriteFile where
  pc : WriteFilePc := .fopen
  data : Bytes
  stream : Buffered.Stream UInt8 := ⟨data, [], [], false⟩
  deriving DecidableEq

namespace WriteFile

/-- The number of bytes that `fwrite` returns. -/
def written (s : WriteFile) : ℕ := s.data.length - s.stream.pending.length

/-- One step of `write_file`. -/
def step (s : WriteFile) : WriteFileEvent → Option WriteFile
  | .fopen ok =>
    if s.pc = .fopen then some { s with pc := if ok then .fwrite else .done true } else none
  | .stdio a =>
    match s.pc with
    | .fwrite => (Buffered.step s.stream a).map fun stream => { s with stream := stream }
    | .fclose _ =>
      -- `fclose` has nothing to put into the buffer
      if a.isPut then none
      else (Buffered.step s.stream a).map fun stream => { s with stream := stream }
    | _ => none
  | .fwriteEnd =>
    if s.pc = .fwrite ∧ s.stream.Taken then
      -- the number of bytes decides between `throw` and a normal return, the guard closes in both
      some { s with pc := .fclose (s.written ≠ s.data.length), stream.failed := false }
    else none
  | .fcloseEnd =>
    match s.pc with
    -- the result of `fclose` is dropped: `threw` stays as it is
    | .fclose threw => if s.stream.Flushed then some { s with pc := .done threw } else none
    | _ => none

/-- What the manager sees of the call. -/
def outcome (s : WriteFile) : Option FileWrite :=
  match s.pc with
  | .done true => some (.failed s.stream.accepted)
  | .done false =>
    some (if s.stream.accepted = s.data then .complete else .silent s.stream.accepted)
  | _ => none

/-- The step is no failure of the system in `fclose` after a complete `fwrite`. -/
def Closing (s : WriteFile) (ev : WriteFileEvent) : Prop :=
  s.pc = .fclose false → ev ≠ .stdio (.write none)

instance (s : WriteFile) (ev : WriteFileEvent) : Decidable (Closing s ev) :=
  inferInstanceAs (Decidable (_ → _))

variable {s s' : WriteFile} {ev : WriteFileEvent} {data : Bytes} {evs : List WriteFileEvent}

/-- All bytes are somewhere in the stream, and those that have been reported as written are
in the buffer or accepted. -/
structure Sound (data : Bytes) (s : WriteFile) : Prop where
  same : s.data = data
  content : s.stream.content = data
  closing : s.pc = .fclose false → s.stream.pending = [] ∧ s.stream.failed = false
  done : s.pc = .done false → s.stream.accepted = data

/-- `fwrite` has reported everything as written, and the system has refused some of it since. -/
structure Lost (data : Bytes) (s : WriteFile) : Prop where
  content : s.stream.content = data
  buffer : s.stream.buffer ≠ []
  pc : s.pc = .fclose false ∧ s.stream.failed = true ∨ s.pc = .done false

/-- `fwrite` returns the full number when it has taken everything. -/
theorem Sound.written_eq (h : Sound data s) (hwritten : s.written = s.data.length) :
    s.stream.pending = [] := by
  have hlength := congrArg List.length h.content
  simp only [Buffered.Stream.content, List.length_append] at hlength
  rw [written, h.same] at hwritten
  apply List.length_eq_zero_iff.mp
  omega

theorem Sound.step (h : Sound data s) (hstep : s.step ev = some s') :
    Closing s ev ∧ Sound data s' ∨ ¬ Closing s ev ∧ Lost data s' := by
  cases ev with
  | fopen ok =>
    obtain ⟨hpc, hs'⟩ := Option.ite_none_right_eq_some.mp hstep
    obtain rfl := Option.some.inj hs'
    refine Or.inl ⟨fun _ hev => (by cases hev), h.same, h.content, fun hpc' => ?_, fun hpc' => ?_⟩
    · cases ok <;> cases hpc'
    · cases ok <;> cases hpc'
  | stdio a =>
    rw [WriteFile.step] at hstep
    split at hstep
    · next hpc =>
      obtain ⟨stream, hstream, rfl⟩ := Option.map_eq_some_iff.mp hstep
      have hopen : s.pc ≠ .fclose false := by rw [hpc]; decide
      refine Or.inl ⟨fun hpc' => absurd hpc' hopen, h.same, ?_, fun hpc' => absurd hpc' hopen, ?_⟩
      · exact (Buffered.step_content hstream).trans h.content
      · intro hpc'
        rw [show s.pc = _ from hpc'] at hpc
        cases hpc
    · next threw hpc =>
      obtain ⟨hput, hs'⟩ := Option.ite_none_left_eq_some.mp hstep
      obtain ⟨stream, hstream, rfl⟩ := Option.map_eq_some_iff.mp hs'
      have hcontent := (Buffered.step_content hstream).trans h.content
      have hnot : s.pc ≠ .done false := by rw [hpc]; exact fun hpc' => (by cases hpc')
      -- in `fclose`: a write that goes through keeps what has been reported
      by_cases hclosing : Closing s (.stdio a)
      · refine Or.inl ⟨hclosing, h.same, hcontent, fun hpc' => ⟨?_, ?_⟩,
          fun hpc' => absurd hpc' hnot⟩
        · exact Buffered.pending_of_step hstream (h.closing hpc').1
        · rw [← Bool.not_eq_true, Buffered.failed_iff_of_step hstream]
          rintro rfl
          exact hclosing hpc' rfl
      · -- the write that fails leaves its bytes in the buffer
        obtain ⟨hpc', ha⟩ := Classical.not_imp.mp hclosing
        obtain rfl := WriteFileEvent.stdio.inj (not_not.mp ha)
        refine Or.inr ⟨hclosing, hcontent, Buffered.buffer_of_failed hstream, Or.inl ⟨hpc', ?_⟩⟩
        exact (Buffered.failed_iff_of_step hstream).mpr rfl
    · cases hstep
  | fwriteEnd =>
    obtain ⟨⟨hpc, htaken⟩, hs'⟩ := Option.ite_none_right_eq_some.mp hstep
    obtain rfl := Option.some.inj hs'
    refine Or.inl ⟨fun _ hev => (by cases hev), h.same, h.content, fun hpc' => ⟨?_, rfl⟩, ?_⟩
    · exact h.written_eq (by simpa using WriteFilePc.fclose.inj hpc')
    · intro hpc'
      cases hpc'
  | fcloseEnd =>
    rw [WriteFile.step] at hstep
    split at hstep
    · next threw hpc =>
      obtain ⟨hflushed, hs'⟩ := Option.ite_none_right_eq_some.mp hstep
      obtain rfl := Option.some.inj hs'
      refine Or.inl ⟨fun _ hev => (by cases hev), h.same, h.content,
        fun hpc' => (by cases hpc'), ?_⟩
      intro hpc'
      obtain rfl := WriteFilePc.done.inj hpc'
      obtain ⟨hpending, hfailed⟩ := h.closing hpc
      have hbuffer : s.stream.buffer = [] := hflushed.resolve_right (by rw [hfailed]; decide)
      have hcontent := h.content
      rwa [Buffered.Stream.content, hbuffer, hpending, List.append_nil, List.append_nil] at hcontent
    · cases hstep

/-- Nothing makes up for the loss. -/
theorem Lost.step (h : Lost data s) (hstep : s.step ev = some s') : Lost data s' := by
  -- after a failed write `fclose` can only end, and then nothing happens any more
  rcases h.pc with ⟨hpc, hfailed⟩ | hpc
  · cases ev with
    | fopen ok =>
      obtain ⟨hpc', -⟩ := Option.ite_none_right_eq_some.mp hstep
      rw [hpc] at hpc'
      cases hpc'
    | stdio a =>
      simp only [WriteFile.step, hpc] at hstep
      obtain ⟨-, hs'⟩ := Option.ite_none_left_eq_some.mp hstep
      obtain ⟨stream, hstream, -⟩ := Option.map_eq_some_iff.mp hs'
      rw [(Buffered.step_cases hstream).1] at hfailed
      cases hfailed
    | fwriteEnd =>
      obtain ⟨⟨hpc', -⟩, -⟩ := Option.ite_none_right_eq_some.mp hstep
      rw [hpc] at hpc'
      cases hpc'
    | fcloseEnd =>
      simp only [WriteFile.step, hpc] at hstep
      obtain ⟨-, hs'⟩ := Option.ite_none_right_eq_some.mp hstep
      obtain rfl := Option.some.inj hs'
      exact ⟨h.content, h.buffer, Or.inr rfl⟩
  · -- the call is over
    cases ev <;> simp [WriteFile.step, hpc] at hstep

/-- **Failures of `write_file`.** A call that has ended did not return normally without all
bytes accepted if and only if the system refused nothing that `fclose` wrote after a complete
`fwrite`. -/
theorem reports_failure_iff {threw : Bool}
    (hrun : Machine.exec step { data := data } evs = some s) (hdone : s.pc = .done threw) :
    (threw = false → s.stream.accepted = data) ↔
      Machine.StepsMeet step Closing { data := data } evs := by
  have hstart : Sound data { data := data } :=
    ⟨rfl, rfl, fun hpc => (by cases hpc), fun hpc => (by cases hpc)⟩
  rcases Machine.meet_or_damaged
    (fun s ev s' h hc hs => ((Sound.step h hs).resolve_right fun h' => h'.1 hc).2)
    (fun s ev s' h hc hs => ((Sound.step h hs).resolve_left fun h' => hc h'.1).2)
    (fun s ev s' h hs => Lost.step h hs) hstart hrun with ⟨hmeet, hsound⟩ | ⟨hmeet, hlost⟩
  · refine iff_of_true ?_ hmeet
    rintro rfl
    exact hsound.done hdone
  · refine iff_of_false (fun hall => hlost.buffer ?_) hmeet
    have hpc := hlost.pc.resolve_left (by rw [hdone]; exact fun h => (by cases h.1))
    -- a loss is silent, so it would have to be no loss at all
    obtain rfl := WriteFilePc.done.inj (hdone.symm.trans hpc)
    have hcontent := hlost.content
    rw [Buffered.Stream.content, hall rfl, List.append_assoc] at hcontent
    exact (List.append_eq_nil_iff.mp (List.append_right_eq_self.mp hcontent)).1

/-- The default memory limit. -/
def limitData : Bytes := Proto3.text "100M"

/-- The kernel takes the limit. -/
theorem reports_failure_limit :
    ∃ s, Machine.exec step { data := limitData }
        [.fopen true, .stdio (.put 4), .fwriteEnd, .stdio (.write (some 4)), .fcloseEnd] = some s ∧
      s.pc = .done false ∧ s.stream.accepted = limitData := by
  obtain ⟨s, hrun, hdone⟩ := Machine.exec_of_any
    (show (Machine.exec step { data := limitData }
        [.fopen true, .stdio (.put 4), .fwriteEnd, .stdio (.write (some 4)), .fcloseEnd]).any
      (fun s => s.pc = .done false) = true by decide +kernel)
  have hdone : s.pc = .done false := of_decide_eq_true hdone
  exact ⟨s, hrun, hdone, (reports_failure_iff hrun hdone).mpr (by decide +kernel) rfl⟩

/-- The kernel refuses the limit when `fclose` writes it: `write_file` returns normally with
nothing written, and `handle_request` goes on to run the command without a limit. -/
theorem not_reports_failure :
    (∃ s, Machine.exec step { data := limitData }
        [.fopen true, .stdio (.put 4), .fwriteEnd, .stdio (.write none), .fcloseEnd] = some s ∧
      s.pc = .done false ∧ s.stream.accepted ≠ limitData ∧ s.outcome = some (.silent [])) ∧
    ∃ p, Machine.exec (Proc.step Proto3.env) (Proc.start 5)
        ((Proc.bootLabels ++ Proc.receiveLabels Proc.lsData ++
          (Proc.handleLabels Proc.lsData.bytes 100).take 6 ++
          [Label.writeCgroup 100 .memlimit "100M" (.silent [])]).map .mgr) = some p ∧
      p.mgr.pc = .handle .memswExists Proc.lsData.bytes [] := by
  constructor
  · obtain ⟨s, hrun, hs⟩ := Machine.exec_of_any
      (show (Machine.exec step { data := limitData }
          [.fopen true, .stdio (.put 4), .fwriteEnd, .stdio (.write none), .fcloseEnd]).any
        (fun s => s.pc = .done false ∧ s.stream.accepted ≠ limitData ∧
          s.outcome = some (.silent [])) = true by decide +kernel)
    exact ⟨s, hrun, of_decide_eq_true hs⟩
  · obtain ⟨p, hrun, hp⟩ := Machine.exec_of_any
      (show (Machine.exec (Proc.step Proto3.env) (Proc.start 5)
          ((Proc.bootLabels ++ Proc.receiveLabels Proc.lsData ++
            (Proc.handleLabels Proc.lsData.bytes 100).take 6 ++
            [Label.writeCgroup 100 .memlimit "100M" (.silent [])]).map .mgr)).any
        (fun p => p.mgr.pc = .handle .memswExists Proc.lsData.bytes []) = true by decide +kernel)
    exact ⟨p, hrun, of_decide_eq_true hp⟩

end WriteFile

end Srun
