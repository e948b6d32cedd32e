import Rucix.Data.AddressSpace

namespace Rucix.Ipc.Signal

open Rucix.Data

/-! Signals, `kernel/ipc/signal.c`, and the dispatcher of system calls,
`kernel/syscall/syscall.c`.

The registers of user code are those that the interrupt entry saves.  The frame
lies on the kernel stack, apart from the memory of the user code.
-/

/-- The registers, without those that the entry adds. -/
structure Cpu where
  r15 : Word
  r14 : Word
  r13 : Word
  r12 : Word
  r11 : Word
  r10 : Word
  r9 : Word
  r8 : Word
  rbp : Word
  rdi : Word
  rsi : Word
  rdx : Word
  rcx : Word
  rbx : Word
  rax : Word
  rip : Word
  cs : Word
  rflags : Word
  rsp : Word
  ss : Word
deriving DecidableEq

/-- `struct interrupt_frame` -/
structure InterruptFrame extends Cpu where
  intNo : Word
  errCode : Word
deriving DecidableEq

namespace InterruptFrame

/-- The fields in the order of the `struct`. -/
def words (frame : InterruptFrame) : List Word :=
  [frame.r15, frame.r14, frame.r13, frame.r12, frame.r11, frame.r10, frame.r9, frame.r8, frame.rbp,
    frame.rdi, frame.rsi, frame.rdx, frame.rcx, frame.rbx, frame.rax, frame.intNo, frame.errCode,
    frame.rip, frame.cs, frame.rflags, frame.rsp, frame.ss]

def ofWords (words : List Word) : InterruptFrame where
  r15 := words.getD 0 0
  r14 := words.getD 1 0
  r13 := words.getD 2 0
  r12 := words.getD 3 0
  r11 := words.getD 4 0
  r10 := words.getD 5 0
  r9 := words.getD 6 0
  r8 := words.getD 7 0
  rbp := words.getD 8 0
  rdi := words.getD 9 0
  rsi := words.getD 10 0
  rdx := words.getD 11 0
  rcx := words.getD 12 0
  rbx := words.getD 13 0
  rax := words.getD 14 0
  intNo := words.getD 15 0
  errCode := words.getD 16 0
  rip := words.getD 17 0
  cs := words.getD 18 0
  rflags := words.getD 19 0
  rsp := words.getD 20 0
  ss := words.getD 21 0

def bytes (frame : InterruptFrame) : List UInt8 := frame.words.flatMap wordBytes

theorem ofWords_words (frame : InterruptFrame) : ofWords frame.words = frame := rfl

theorem words_length (frame : InterruptFrame) : frame.words.length = 22 := rfl

end InterruptFrame

/-! Delivery. -/

/-- `sizeof(struct sigframe)` -/
def sigframeSize : Word := 184

/-- The first byte of `ret_code`: the sigframe below the stack, aligned. -/
def sigframe (frame : InterruptFrame) : Word := (frame.rsp - sigframeSize) &&& ~~~0xF

/-- `mov eax, 119` and `int 0x80`. -/
def retCode : List UInt8 := [0xB8, 119, 0, 0, 0, 0xCD, 0x80]

def setupFrame (sig : Nat) (handler : Word) (frame : InterruptFrame) (memory : AddressSpace) :
    InterruptFrame × AddressSpace :=
  let sf := sigframe frame
  let memory := memory.store (sf + 8) frame.bytes
  let memory := memory.store sf retCode
  let frame := { frame with rsp := sf - 8, rip := handler, rdi := BitVec.ofNat 64 sig }
  (frame, memory.store frame.rsp (wordBytes sf))

structure Process where
  pendingSignals : BitVec 32
  signalHandler : Nat → Word

/-- What the handlers of a trap work on. -/
structure World where
  currentProcess : Option Process
  memory : AddressSpace
  /-- What `seccomp_check_syscall` returns for a number. -/
  seccomp : Int → Int

def Process.clear (process : Process) (sig : Nat) : Process :=
  { process with pendingSignals := process.pendingSignals &&& ~~~(1#32 <<< sig) }

/-- The loop of `handle_pending_signals` over the numbers that are left: `none`
when the process exits. -/
def deliver (signals : BitVec 32) (frame : InterruptFrame) (world : World) :
    List Nat → Process → Option (InterruptFrame × World)
  | [], process => some (frame, { world with currentProcess := some process })
  | sig :: rest, process =>
    if signals &&& 1#32 <<< sig = 0 then deliver signals frame world rest process
    else
      let process := process.clear sig
      let handler := process.signalHandler sig
      if handler = 0 then none
      else if handler = 1 then deliver signals frame world rest process
      else
        let (frame, memory) := setupFrame sig handler frame world.memory
        some (frame, { world with currentProcess := some process, memory })

def signalNumbers : List Nat := List.range' 1 31

def handlePendingSignals (frame : InterruptFrame) (world : World) : Option (InterruptFrame × World) :=
  match world.currentProcess with
  | none => some (frame, world)
  | some process =>
    if process.pendingSignals = 0 then some (frame, world)
    else deliver process.pendingSignals frame world signalNumbers process

/-- The frame afterwards, and the value returned. -/
def sysSigreturn (frame : InterruptFrame) (memory : AddressSpace) : InterruptFrame × Int :=
  let frame := InterruptFrame.ofWords (memory.loadWords (frame.rsp + 8) 22)
  (frame, (frame.rax.truncate 32).toInt)

/-! Dispatch. -/

/-- The wrappers in `syscall_table`. -/
inductive Syscall where
  | yield | exit | print | fork | exec | wait | pipe | read | write | close | dup | openFile
  | initModule | deleteModule | getpid | sleep | chdir | getcwd | lseek | kill | reboot
  | unknown
deriving DecidableEq

def maxSyscalls : Nat := 256

/-- The entries that `syscall_init` sets, at their numbers. -/
def syscallEntries : List (Nat × Syscall) :=
  [(0, .yield), (1, .exit), (2, .print), (3, .fork), (4, .exec), (5, .wait), (6, .pipe), (7, .read),
    (8, .write), (9, .close), (10, .dup), (11, .openFile), (12, .initModule), (13, .deleteModule),
    (14, .getpid), (15, .sleep), (16, .chdir), (17, .getcwd), (18, .lseek), (19, .kill), (20, .reboot)]

def syscallInit : List Syscall :=
  syscallEntries.foldl (fun table entry => table.set entry.1 entry.2)
    (List.replicate maxSyscalls .unknown)

/-- What the wrappers do with their three arguments, the known ones as given. -/
def Syscall.call (known : Syscall → Word → Word → Word → World → Option (Word × World))
    (syscall : Syscall) (first second third : Word) (world : World) : Option (Word × World) :=
  match syscall with
  | .unknown => some (-1, world)
  | _ => known syscall first second third world

/-- `none` when the process exits or does not come back. -/
def syscallHandler (known : Syscall → Word → Word → Word → World → Option (Word × World))
    (frame : InterruptFrame) (world : World) : Option (InterruptFrame × World) :=
  if world.seccomp (frame.rax.truncate 32).toInt ≠ 0 then
    some ({ frame with rax := -1 }, world)
  else
    let called :=
      match syscallInit[frame.rax.toNat]? with
      | some syscall => syscall.call known frame.rsi frame.rdx frame.rcx world
      | none => Syscall.unknown.call known frame.rax 0 0 world
    called.bind fun (value, world) => handlePendingSignals { frame with rax := value } world

end Rucix.Ipc.Signal
