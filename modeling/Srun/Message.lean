import Mathlib

/-!
# Messages of the srun protocol

The data of `proto/proto3/srun.proto`. Scalars are the fixed-width types of the
schema. Enumerations are open, as proto3 reads them: a number that the schema
does not name is kept, as a constructor whose argument carries the proof that it
is not one of the named numbers. A sub-message has presence, hence `Option`;
reading an absent one gives its default.

`Env` collects what the manager uses from outside its own source file: protobuf's
parser and serializer, and `Config::loadRequest`.
-/

namespace Srun

/-- The contents of a `std::string` that carries data. -/
abbrev Bytes := List UInt8

/-- `Request.OutMode`. -/
inductive OutMode
  | ign
  | msg
  | file
  | other (n : {n : Int32 // n < 0 ∨ 2 < n})
  deriving DecidableEq

/-- `Response.State`. -/
inductive Stat
  | normal
  | timeout
  | abnormal
  | badargs
  | other (n : {n : Int32 // n < 0 ∨ 3 < n})
  deriving DecidableEq

/-- `Message.Method`. -/
inductive Method
  | exe
  | syn
  | ack
  | list
  | stop
  | other (n : {n : Int32 // n < 0 ∨ 4 < n})
  deriving DecidableEq

/-- `message Request`; the field values are the defaults of the schema. -/
structure Request where
  args : List String := []
  model : String := ""
  timeout : Int32 := 0
  user : String := ""
  chroot : String := ""
  outmode : OutMode := .ign
  errmode : OutMode := .ign
  outfile : String := ""
  errfile : String := ""
  network : Bool := false
  backend : Bool := false
  nice : Int32 := 0
  memlimit : String := ""
  memswlimit : String := ""
  envs : List String := []
  deriving DecidableEq

/-- `message Response`. -/
structure Response where
  stat : Stat := .normal
  retval : Int32 := 0
  outstr : Bytes := []
  errstr : Bytes := []
  deriving DecidableEq

/-- `message Runproc`. -/
structure Runproc where
  pid : Int32 := 0
  since : Int64 := 0
  request : Option Request := none
  deriving DecidableEq

/-- `message Message`. -/
structure Message where
  method : Method := .exe
  response : Option Response := none
  request : Option Request := none
  runlist : List Runproc := []
  deriving DecidableEq

namespace Message

/-- `message.request()`: the default instance when the field is absent. -/
def getRequest (m : Message) : Request := m.request.getD {}

/-- `message.response()`. -/
def getResponse (m : Message) : Response := m.response.getD {}

/-- The messages after which `send_message` sets `result_sendback`: all but
heartbeats. -/
def isResult (m : Message) : Bool := m.method ≠ .syn && m.method ≠ .ack

end Message

/-- What the manager calls outside `manager.cpp`. -/
structure Env where
  /-- `Message::SerializeToString`; `none` is its failure. -/
  serialize : Message → Option Bytes
  /-- `Message::ParseFromString`; `none` is its failure. -/
  parse : Bytes → Option Message
  /-- `Config::loadRequest`, which overlays the configuration on the request in
  place; `none` when the call does not return. -/
  loadRequest : Request → Option Request

end Srun
