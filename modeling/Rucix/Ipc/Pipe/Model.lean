import Rucix.Data.Ring
import Rucix.Data.Run

namespace Rucix.Ipc

open Function

/-! The byte pipe of `kernel/ipc/pipe.c`.

`pipe_read` and `pipe_write` take the pipe lock once for every byte, so the
unit of interleaving is one pass through the locked section.
-/

def pipeSize : Int := 4096

/-- `O_RDONLY` and `O_WRONLY`, the two values `pipe_create` puts in `f_flags`. -/
inductive PipeFlags where
  | rdonly
  | wronly
deriving DecidableEq, Repr

structure Pipe where
  buffer : Nat → UInt8
  readPos : Int
  writePos : Int
  bytesAvailable : Int
  readers : Int
  writers : Int

/-- The structure `pipe_create` clears and then opens once at each end. -/
def pipeCreate : Pipe where
  buffer := fun _ => 0
  readPos := 0
  writePos := 0
  bytesAvailable := 0
  readers := 1
  writers := 1

inductive ReadSection where
  | endOfFile
  | sleep
  | taken (byte : UInt8) (after : Pipe)

/-- One locked pass of `pipe_read`; `sleep` releases the lock and tries again. -/
def pipeReadSection (pipe : Pipe) : ReadSection :=
  if pipe.bytesAvailable = 0 then
    if pipe.writers = 0 then .endOfFile else .sleep
  else
    .taken (pipe.buffer pipe.readPos.toNat)
      { pipe with
        readPos := (pipe.readPos + 1).tmod pipeSize
        bytesAvailable := pipe.bytesAvailable - 1 }

inductive WriteSection where
  | broken
  | sleep
  | stored (after : Pipe)

def pipeWriteSection (pipe : Pipe) (byte : UInt8) : WriteSection :=
  if pipe.bytesAvailable = pipeSize then
    if pipe.readers = 0 then .broken else .sleep
  else
    .stored
      { pipe with
        buffer := update pipe.buffer pipe.writePos.toNat byte
        writePos := (pipe.writePos + 1).tmod pipeSize
        bytesAvailable := pipe.bytesAvailable + 1 }

/-- The locked section of `pipe_close`, with the decision to free the pipe. -/
def pipeClose (pipe : Pipe) (flags : PipeFlags) : Pipe × Bool :=
  let closed :=
    match flags with
    | .rdonly => { pipe with readers := pipe.readers - 1 }
    | .wronly => { pipe with writers := pipe.writers - 1 }
  (closed, closed.readers = 0 && closed.writers = 0)

/-- The caller's side of a `pipe_read`: the bytes stored so far and, once the
call has returned, its result. -/
structure ReadCall where
  size : Int
  buffer : List UInt8
  result : Option Int

def ReadCall.bytesRead (call : ReadCall) : Nat := call.buffer.length

structure WriteCall where
  buffer : Nat → UInt8
  size : Int
  bytesWritten : Nat
  result : Option Int

def WriteCall.written (call : WriteCall) : List UInt8 :=
  (List.range call.bytesWritten).map call.buffer

def pipeRead (flags : PipeFlags) (size : Int) : ReadCall where
  size := size
  buffer := []
  result := if flags = .wronly then some (-1) else none

def pipeWrite (flags : PipeFlags) (buffer : Nat → UInt8) (size : Int) : WriteCall where
  buffer := buffer
  size := size
  bytesWritten := 0
  result := if flags = .rdonly then some (-1) else none

/-- `received` and `sent` keep what a task's finished calls moved; `inserted` and
`removed` are the two histories of the ring. -/
structure PipeSystem where
  pipe : Pipe
  reads : Nat → ReadCall
  writes : Nat → WriteCall
  received : Nat → List UInt8
  sent : Nat → List UInt8
  inserted : List (Nat × UInt8)
  removed : List (Nat × UInt8)

def PipeSystem.initial : PipeSystem where
  pipe := pipeCreate
  reads := fun _ => { size := 0, buffer := [], result := some 0 }
  writes := fun _ => { buffer := fun _ => 0, size := 0, bytesWritten := 0, result := some 0 }
  received := fun _ => []
  sent := fun _ => []
  inserted := []
  removed := []

inductive PipeLabel where
  | beginRead (task : Nat) (flags : PipeFlags) (size : Int)
  | beginWrite (task : Nat) (flags : PipeFlags) (buffer : Nat → UInt8) (size : Int)
  | readSection (task : Nat)
  | writeSection (task : Nat)
  | close (flags : PipeFlags)

def PipeSystem.setRead (system : PipeSystem) (task : Nat) (call : ReadCall) : PipeSystem :=
  { system with reads := update system.reads task call }

def PipeSystem.setWrite (system : PipeSystem) (task : Nat) (call : WriteCall) : PipeSystem :=
  { system with writes := update system.writes task call }

def PipeSystem.readStep (system : PipeSystem) (task : Nat) : PipeSystem :=
  let call := system.reads task
  if (call.bytesRead : Int) < call.size then
    match pipeReadSection system.pipe with
    | .endOfFile => system.setRead task { call with result := some call.bytesRead }
    | .sleep => system
    | .taken byte after =>
      { system.setRead task { call with buffer := call.buffer ++ [byte] } with
        pipe := after
        removed := system.removed ++ [(task, byte)] }
  else
    system.setRead task { call with result := some call.bytesRead }

def PipeSystem.writeStep (system : PipeSystem) (task : Nat) : PipeSystem :=
  let call := system.writes task
  if (call.bytesWritten : Int) < call.size then
    match pipeWriteSection system.pipe (call.buffer call.bytesWritten) with
    | .broken => system.setWrite task { call with result := some (-1) }
    | .sleep => system
    | .stored after =>
      { system.setWrite task { call with bytesWritten := call.bytesWritten + 1 } with
        pipe := after
        inserted := system.inserted ++ [(task, call.buffer call.bytesWritten)] }
  else
    system.setWrite task { call with result := some call.bytesWritten }

/-- A task starts a call only when its previous one has returned, and the pipe
is used only until `pipe_close` frees it. -/
def PipeSystem.step (system : PipeSystem) : PipeLabel → Option PipeSystem
  | .beginRead task flags size =>
    if (system.reads task).result.isSome then
      some { system.setRead task (pipeRead flags size) with
        received := update system.received task
          (system.received task ++ (system.reads task).buffer) }
    else none
  | .beginWrite task flags buffer size =>
    if (system.writes task).result.isSome then
      some { system.setWrite task (pipeWrite flags buffer size) with
        sent := update system.sent task
          (system.sent task ++ (system.writes task).written) }
    else none
  | .readSection task =>
    if (system.reads task).result.isNone then some (system.readStep task) else none
  | .writeSection task =>
    if (system.writes task).result.isNone then some (system.writeStep task) else none
  | .close flags =>
    match pipeClose system.pipe flags with
    | (_, true) => none
    | (pipe, false) => some { system with pipe }

def PipeStep (before : PipeSystem) (label : PipeLabel) (after : PipeSystem) : Prop :=
  before.step label = some after

end Rucix.Ipc
