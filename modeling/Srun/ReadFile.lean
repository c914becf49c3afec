import Srun.WriteFile

/-!
# Reading a registry file back

`read_file` of `utils.cpp` down to the calls of the library. The size comes from `ftell`, the
text is resized to it, which fills it with zeros, and `fread` reads into it from the beginning.
Of all the calls `fopen` and, through `ferror`, `fread` are looked at; a `fseek` or `rewind` that
fails leaves a text of the wrong size or one of zeros, and `read_file` returns normally.

`reads_back_iff` puts a call of `write_file` in front: what LIST reads is what `handle_request`
has written exactly when nothing was lost in `fclose` then and neither of the two fails now.
-/

namespace Srun

/-- `write_file` only reads its text. -/
theorem WriteFile.data_of_exec {s t : WriteFile} {evs : List WriteFileEvent}
    (hrun : Machine.exec WriteFile.step s evs = some t) : t.data = s.data := by
  refine Machine.exec_invariant (I := fun t => t.data = s.data) ?_ rfl hrun
  intro t ev t' ht hstep
  rw [← ht]
  cases ev with
  | fopen ok =>
    obtain ⟨-, h⟩ := Option.ite_none_right_eq_some.mp hstep
    cases h
    rfl
  | stdio a =>
    rw [WriteFile.step] at hstep
    split at hstep
    · obtain ⟨stream, -, rfl⟩ := Option.map_eq_some_iff.mp hstep
      rfl
    · obtain ⟨-, h⟩ := Option.ite_none_left_eq_some.mp hstep
      obtain ⟨stream, -, rfl⟩ := Option.map_eq_some_iff.mp h
      rfl
    · cases hstep
  | fwriteEnd =>
    obtain ⟨-, h⟩ := Option.ite_none_right_eq_some.mp hstep
    cases h
    rfl
  | fcloseEnd =>
    rw [WriteFile.step] at hstep
    split at hstep
    · obtain ⟨-, h⟩ := Option.ite_none_right_eq_some.mp hstep
      cases h
      rfl
    · cases hstep

/-- Where `read_file` is, and what it will return; `none` stands for an exception. -/
inductive ReadFilePc
  | fopen
  | fseek
  | ftell
  /-- `data.resize`, with the result of `ftell`; `none` is -1. -/
  | resize (size : Option ℕ)
  | rewind
  | fread
  | fclose (result : Option Bytes)
  | done (result : Option Bytes)
  deriving DecidableEq

/-- What happens in `read_file`. -/
inductive ReadFileEvent
  | fopen (ok : Bool)
  | fseek (ok : Bool)
  | ftell (ok : Bool)
  | resize
  | rewind (ok : Bool)
  /-- The system reads some bytes for `fread`. -/
  | read (n : ℕ)
  /-- Or it fails, which sets the error indicator. -/
  | readError
  | freadEnd
  | fclose
  deriving DecidableEq

/-- A call of `read_file`. -/
structure ReadFile where
  pc : ReadFilePc := .fopen
  /-- The position in the file. -/
  pos : ℕ := 0
  /-- The size of `data`. -/
  size : ℕ := 0
  /-- What `fread` has put at its front. -/
  got : Bytes := []
  deriving DecidableEq

namespace ReadFile

def goto (s : ReadFile) (pc : ReadFilePc) : ReadFile := { s with pc := pc }

/-- `data`, which `resize` has filled with zeros. -/
def data (s : ReadFile) : Bytes := s.got ++ List.replicate (s.size - s.got.length) 0

/-- One step of `read_file` on a file with this content. -/
def step (file : Bytes) (s : ReadFile) (ev : ReadFileEvent) : Option ReadFile :=
  match s.pc, ev with
  | .fopen, .fopen ok => some (s.goto (if ok then .fseek else .done none))
  | .fseek, .fseek ok =>
    -- the result is not looked at
    some { s with pos := if ok then file.length else s.pos, pc := .ftell }
  | .ftell, .ftell ok => some (s.goto (.resize (if ok then some s.pos else none)))
  -- `std::length_error`
  | .resize none, .resize => some (s.goto (.fclose none))
  | .resize (some size), .resize => some { s with size := size, pc := .rewind }
  | .rewind, .rewind ok => some { s with pos := if ok then 0 else s.pos, pc := .fread }
  | .fread, .read n =>
    if 0 < n ∧ s.got.length + n ≤ s.size ∧ s.pos + n ≤ file.length then
      some { s with got := s.got ++ (file.drop s.pos).take n, pos := s.pos + n }
    else none
  | .fread, .readError => some (s.goto (.fclose none))
  | .fread, .freadEnd =>
    -- everything is there, or the file is at its end
    if s.got.length = s.size ∨ file.length ≤ s.pos then some (s.goto (.fclose (some s.data)))
    else none
  | .fclose result, .fclose => some (s.goto (.done result))
  | _, _ => none

variable {file : Bytes} {s s' : ReadFile} {ev : ReadFileEvent}

/-- The steps of `read_file`, by name. -/
inductive Step (file : Bytes) (s : ReadFile) : ReadFileEvent → ReadFile → Prop
  | fopen (ok : Bool) (hpc : s.pc = .fopen) :
      Step file s (.fopen ok) (s.goto (if ok then .fseek else .done none))
  | fseek (ok : Bool) (hpc : s.pc = .fseek) :
      Step file s (.fseek ok) { s with pos := if ok then file.length else s.pos, pc := .ftell }
  | ftell (ok : Bool) (hpc : s.pc = .ftell) :
      Step file s (.ftell ok) (s.goto (.resize (if ok then some s.pos else none)))
  | tooLong (hpc : s.pc = .resize none) : Step file s .resize (s.goto (.fclose none))
  | resize {size : ℕ} (hpc : s.pc = .resize (some size)) :
      Step file s .resize { s with size := size, pc := .rewind }
  | rewind (ok : Bool) (hpc : s.pc = .rewind) :
      Step file s (.rewind ok) { s with pos := if ok then 0 else s.pos, pc := .fread }
  | read {n : ℕ} (hpc : s.pc = .fread) (hn : 0 < n) (hsize : s.got.length + n ≤ s.size)
      (hpos : s.pos + n ≤ file.length) :
      Step file s (.read n)
        { s with got := s.got ++ (file.drop s.pos).take n, pos := s.pos + n }
  | readError (hpc : s.pc = .fread) : Step file s .readError (s.goto (.fclose none))
  | freadEnd (hpc : s.pc = .fread) (hend : s.got.length = s.size ∨ file.length ≤ s.pos) :
      Step file s .freadEnd (s.goto (.fclose (some s.data)))
  | fclose {result : Option Bytes} (hpc : s.pc = .fclose result) :
      Step file s .fclose (s.goto (.done result))

/-- The list is complete. -/
theorem step_cases (h : s.step file ev = some s') : Step file s ev s' := by
  unfold step at h
  split at h
  case h_1 hpc => cases h; exact .fopen _ hpc
  case h_2 hpc => cases h; exact .fseek _ hpc
  case h_3 hpc => cases h; exact .ftell _ hpc
  case h_4 hpc => cases h; exact .tooLong hpc
  case h_5 hpc => cases h; exact .resize hpc
  case h_6 hpc => cases h; exact .rewind _ hpc
  case h_7 hpc =>
    obtain ⟨⟨hn, hsize, hpos⟩, h⟩ := Option.ite_none_right_eq_some.mp h
    cases h
    exact .read hpc hn hsize hpos
  case h_8 hpc => cases h; exact .readError hpc
  case h_9 hpc =>
    obtain ⟨hend, h⟩ := Option.ite_none_right_eq_some.mp h
    cases h
    exact .freadEnd hpc hend
  case h_10 hpc => cases h; exact .fclose hpc
  case h_11 => cases h

/-- The file is read from one end to the other. -/
def Whole (file : Bytes) (s : ReadFile) : Prop :=
  match s.pc with
  | .fopen | .fseek => s.got = [] ∧ s.pos = 0
  | .ftell => s.got = [] ∧ s.pos = file.length
  | .resize size => s.got = [] ∧ s.pos = file.length ∧ ∀ n, size = some n → n = file.length
  | .rewind => s.got = [] ∧ s.pos = file.length ∧ s.size = file.length
  | .fread => s.got = file.take s.pos ∧ s.pos ≤ file.length ∧ s.size = file.length
  | .fclose result | .done result => ∀ data, result = some data → data = file

/-- Nothing of the file can be read any more. -/
def Blank (file : Bytes) (s : ReadFile) : Prop :=
  match s.pc with
  | .fopen | .fseek => False
  | .ftell => s.got = [] ∧ s.pos = 0
  | .resize size => s.got = [] ∧ ∀ n, size = some n → n = 0
  | .rewind => s.got = [] ∧ s.size = 0
  | .fread => s.got = [] ∧ (s.size = 0 ∨ s.pos = file.length)
  | .fclose result | .done result => ∀ data, result = some data → ∀ b ∈ data, b = 0

/-- Neither of the two calls whose failure nobody notices fails. -/
def Seeks (ev : ReadFileEvent) : Prop := ev ≠ .fseek false ∧ ev ≠ .rewind false

instance (ev : ReadFileEvent) : Decidable (Seeks ev) := inferInstanceAs (Decidable (_ ∧ _))

theorem Whole.step (h : Whole file s) (hev : Seeks ev) (hstep : Step file s ev s') :
    Whole file s' := by
  cases hstep with
  | fopen ok hpc =>
    rw [Whole, hpc] at h
    cases ok with
    | false => exact fun data hdata => by cases hdata
    | true => exact h
  | fseek ok hpc =>
    rw [Whole, hpc] at h
    cases ok with
    | false => exact absurd rfl hev.1
    | true => exact ⟨h.1, rfl⟩
  | ftell ok hpc =>
    rw [Whole, hpc] at h
    refine ⟨h.1, h.2, fun n hn => ?_⟩
    cases ok with
    | false => cases hn
    | true => exact (Option.some.inj hn).symm.trans h.2
  | tooLong hpc => exact fun data hdata => by cases hdata
  | resize hpc =>
    rw [Whole, hpc] at h
    exact ⟨h.1, h.2.1, h.2.2 _ rfl⟩
  | rewind ok hpc =>
    rw [Whole, hpc] at h
    cases ok with
    | false => exact absurd rfl hev.2
    | true => exact ⟨h.1, Nat.zero_le _, h.2.2⟩
  | @read n hpc hn hsize hpos =>
    rw [Whole, hpc] at h
    obtain ⟨hgot, -, hsize⟩ := h
    have hnext : s.got ++ (file.drop s.pos).take n = file.take (s.pos + n) := by
      rw [hgot, List.take_add]
    rw [Whole, show ({ s with got := _, pos := _ } : ReadFile).pc = .fread from hpc]
    exact ⟨hnext, hpos, hsize⟩
  | readError hpc => exact fun data hdata => by cases hdata
  | freadEnd hpc hend =>
    rw [Whole, hpc] at h
    obtain ⟨hgot, hpos, hsize⟩ := h
    intro data hdata
    obtain rfl := Option.some.inj hdata
    -- the two ends are one
    have hall : s.pos = file.length := by
      have hlength : s.got.length = s.pos := by rw [hgot, List.length_take, Nat.min_eq_left hpos]
      omega
    have hgot : s.got = file := by rw [hgot, hall, List.take_length]
    rw [ReadFile.data, hgot, hsize, Nat.sub_self, List.replicate_zero, List.append_nil]
  | fclose hpc =>
    rw [Whole, hpc] at h
    exact h

/-- The first such failure. -/
theorem Whole.blank (h : Whole file s) (hev : ¬ Seeks ev) (hstep : Step file s ev s') :
    Blank file s' := by
  cases hstep with
  | fseek ok hpc =>
    rw [Whole, hpc] at h
    cases ok with
    | false => exact h
    | true => exact absurd ⟨by simp, by simp⟩ hev
  | rewind ok hpc =>
    rw [Whole, hpc] at h
    cases ok with
    | false => exact ⟨h.1, Or.inr h.2.1⟩
    | true => exact absurd ⟨by simp, by simp⟩ hev
  | _ => exact absurd ⟨by simp, by simp⟩ hev

theorem Blank.step (h : Blank file s) (hstep : Step file s ev s') : Blank file s' := by
  cases hstep with
  | fopen ok hpc | fseek ok hpc =>
    rw [Blank, hpc] at h
    exact h.elim
  | ftell ok hpc =>
    rw [Blank, hpc] at h
    refine ⟨h.1, fun n hn => ?_⟩
    cases ok with
    | false => cases hn
    | true => exact (Option.some.inj hn).symm.trans h.2
  | tooLong hpc => exact fun data hdata => by cases hdata
  | resize hpc =>
    rw [Blank, hpc] at h
    exact ⟨h.1, h.2 _ rfl⟩
  | rewind ok hpc =>
    rw [Blank, hpc] at h
    exact ⟨h.1, Or.inl h.2⟩
  | read hpc hn hsize hpos =>
    rw [Blank, hpc] at h
    -- there is no room, or there is nothing
    rcases h.2 with hnone | hlast <;> omega
  | readError hpc => exact fun data hdata => by cases hdata
  | freadEnd hpc hend =>
    rw [Blank, hpc] at h
    intro data hdata b hb
    obtain rfl := Option.some.inj hdata
    rw [ReadFile.data, h.1, List.nil_append] at hb
    exact List.eq_of_mem_replicate hb
  | fclose hpc =>
    rw [Blank, hpc] at h
    exact h

/-- What `read_file` returns on a file that nobody changes meanwhile: the file, or zeros. -/
theorem reads {evs : List ReadFileEvent} {data : Bytes}
    (hrun : Machine.exec (step file) {} evs = some s) (hdone : s.pc = .done (some data)) :
    (∀ ev ∈ evs, Seeks ev) ∧ data = file ∨ (¬ ∀ ev ∈ evs, Seeks ev) ∧ ∀ b ∈ data, b = 0 := by
  have hstart : Whole file {} := ⟨rfl, rfl⟩
  have hcases := Machine.meet_or_damaged (C := fun _ ev => Seeks ev)
    (fun s ev s' h hc hs => Whole.step h hc (step_cases hs))
    (fun s ev s' h hc hs => Whole.blank h hc (step_cases hs))
    (fun s ev s' h hs => Blank.step h (step_cases hs)) hstart hrun
  rw [Machine.stepsMeet_iff_forall hrun] at hcases
  rcases hcases with ⟨hmeet, hwhole⟩ | ⟨hmeet, hblank⟩
  · rw [Whole, hdone] at hwhole
    exact Or.inl ⟨hmeet, hwhole data rfl⟩
  · rw [Blank, hdone] at hblank
    exact Or.inr ⟨hmeet, hblank data rfl⟩

/-- **What is read back.** A call of `write_file` has returned normally, and a later call of
`read_file` on the same file has. Then the second one gives the bytes of the first, of which
some are not zero, if and only if nothing was lost when the file was closed and both calls
that position the second one have succeeded; how the bytes were cut in writing and in reading
does not matter. -/
theorem reads_back_iff {data data' : Bytes} {wevs : List WriteFileEvent}
    {revs : List ReadFileEvent} {w : WriteFile} {o : FileWrite}
    (hdata : ∃ b ∈ data, b ≠ 0)
    (hw : Machine.exec WriteFile.step { data := data } wevs = some w) (ho : w.outcome = some o)
    (hreturned : o.returned = true)
    (hr : Machine.exec (step w.stream.accepted) {} revs = some s)
    (hdone : s.pc = .done (some data')) :
    data' = data ↔ o = .complete ∧ ∀ ev ∈ revs, Seeks ev := by
  have hsame : w.data = data := WriteFile.data_of_exec hw
  have hcomplete : o = .complete ↔ w.stream.accepted = data := by
    unfold WriteFile.outcome at ho
    split at ho
    · cases ho
      cases hreturned
    · obtain rfl := Option.some.inj ho
      rw [hsame]
      split
      · next heq => exact iff_of_true rfl heq
      · next hne => exact iff_of_false (fun h => by cases h) hne
    · cases ho
  rcases reads hr hdone with ⟨hseeks, rfl⟩ | ⟨hseeks, hzero⟩
  · rw [hcomplete]
    exact ⟨fun h => ⟨h, hseeks⟩, And.left⟩
  · refine iff_of_false ?_ fun h => hseeks h.2
    rintro rfl
    obtain ⟨b, hb, hne⟩ := hdata
    exact hne (hzero b hb)

/-- The limit is written in one piece and read in two. -/
theorem reads_back_limit :
    ∃ w s, Machine.exec WriteFile.step { data := WriteFile.limitData }
        [.fopen true, .stdio (.put 4), .fwriteEnd, .stdio (.write (some 4)), .fcloseEnd] = some w ∧
      Machine.exec (step w.stream.accepted) {}
        [.fopen true, .fseek true, .ftell true, .resize, .rewind true, .read 3, .read 1,
          .freadEnd, .fclose] = some s ∧
      s.pc = .done (some WriteFile.limitData) := by
  obtain ⟨w, hw, hwritten⟩ := Machine.exec_of_any
    (show (Machine.exec WriteFile.step { data := WriteFile.limitData }
        [.fopen true, .stdio (.put 4), .fwriteEnd, .stdio (.write (some 4)), .fcloseEnd]).any
      (fun w => w.outcome = some .complete ∧ w.stream.accepted = WriteFile.limitData) = true
      by decide +kernel)
  obtain ⟨ho, haccepted⟩ := of_decide_eq_true hwritten
  obtain ⟨s, hr, hread⟩ := Machine.exec_of_any
    (show (Machine.exec (step WriteFile.limitData) {}
        [.fopen true, .fseek true, .ftell true, .resize, .rewind true, .read 3, .read 1,
          .freadEnd, .fclose]).any
      (fun s => s.pc = .done (some s.data)) = true by decide +kernel)
  rw [← haccepted] at hr
  have hdone : s.pc = .done (some s.data) := of_decide_eq_true hread
  have hsame : s.data = WriteFile.limitData :=
    (reads_back_iff (by decide) hw ho rfl hr hdone).mpr ⟨rfl, by decide⟩
  exact ⟨w, s, hw, hr, hsame ▸ hdone⟩

end ReadFile

end Srun
