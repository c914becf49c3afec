import Srun.Message

/-!
# Captured output of a command

`struct Output` of `output.cpp`: one captured stream (stdout or stderr) of the
command. The results of the system calls are arguments; a call that can throw
returns the object as it is left together with `true` when it returned normally
and `false` when it threw.
-/

namespace Srun

/-- One successful `read` into a buffer of `BUFSIZE` bytes. -/
structure Chunk where
  bytes : Bytes
  pos : 0 < bytes.length
  le : bytes.length ≤ 1024
  deriving DecidableEq

/-- What `read` returns, one call after the other, until there is nothing more. -/
abbrev Burst := List Chunk

/-- The data that has been read after a burst. -/
def Burst.data (b : Burst) : Bytes := b.flatMap Chunk.bytes

/-- `struct Output`; the field values are those of the constructor. -/
structure Output where
  mode : OutMode := .ign
  /-- `pipefd[0]`, the read end. -/
  pipefd0 : Int := -1
  /-- `pipefd[1]`, the write end. -/
  pipefd1 : Int := -1
  redirectTo : String := ""
  redirectFd : Int := -1
  /-- The stream has been received completely. -/
  «over» : Bool := false
  /-- The content received in MSG mode. -/
  str : Bytes := []
  deriving DecidableEq

namespace Output

/-- `pipe(pipefd)`, thrown upon when it fails. -/
def openPipe (o : Output) : Option (Int × Int) → Output × Bool
  | none => (o, false)
  | some (r, w) => ({ o with pipefd0 := r, pipefd1 := w }, true)

/-- `Output::load`. `found` is what `exists(redirect_to)` says, `pipe` the result
of `pipe(2)`. -/
def load (o : Output) (mode : OutMode) (path : String) (backend found : Bool)
    (pipe : Option (Int × Int)) : Output × Bool :=
  let o := { o with mode := mode, redirectTo := path }
  match mode with
  | .msg => if backend then (o, true) else o.openPipe pipe
  | .file => if found then o.openPipe pipe else (o, false)
  | _ => (o, true)

/-- `Output::bind`. `fd` is the result of opening the redirect file, `added` says
that `epoll_ctl` succeeded. -/
def bind (o : Output) (fd : Int) (added : Bool) : Output × Bool :=
  if o.pipefd0 ≠ -1 then
    let o := if o.mode = .file then { o with redirectFd := fd } else o
    if o.mode = .file ∧ fd = -1 then (o, false)
    else ({ o with pipefd1 := -1 }, added)
  else ({ o with «over» := true }, true)

/-- The loop of `Output::receive` in MSG mode over the chunks that the reads
deliver: the content, `read_total_size` and whether the limit of 8 MB ended the
loop. The counter is an `int`, and wraps around as one. -/
def receiveMsg (str : Bytes) (total : Int32) : List Chunk → Bytes × Int32 × Bool
  | [] => (str, total, false)
  | c :: cs =>
    let total := total + Int32.ofNat c.bytes.length
    if 2 ^ 23 ≤ str.length then (str, total, true)
    else receiveMsg (str ++ c.bytes) total cs

/-- The loop in FILE mode; each chunk comes with the offset that `lseek` reports.
The first component is what is written to the redirect file. -/
def receiveFile (written : Bytes) (total : Int32) : List (Chunk × Int) → Bytes × Int32 × Bool
  | [] => (written, total, false)
  | (c, offset) :: cs =>
    let total := total + Int32.ofNat c.bytes.length
    -- both halves of the test as the source has them
    if offset = -1 ∧ 2 ^ 25 ≤ offset then (written, total, true)
    else receiveFile (written ++ c.bytes) total cs

/-- `Output::receive`: the object afterwards and the bytes written to the
redirect file. -/
def receive (o : Output) (reads : List (Chunk × Int)) : Output × Bytes :=
  let (str, written, total, overlimit) := match o.mode with
    | .msg =>
      let r := receiveMsg o.str 0 (reads.map Prod.fst)
      (r.1, [], r.2.1, r.2.2)
    | .file =>
      let r := receiveFile [] 0 reads
      (o.str, r.1, r.2.1, r.2.2)
    | _ => (o.str, [], 0, false)
  -- a counter that has wrapped around ends the capture as well
  if overlimit || total ≤ 0 then
    ({ o with str := str, «over» := true, pipefd0 := -1, redirectFd := -1 }, written)
  else ({ o with str := str }, written)

end Output

end Srun
