import Rucix.Data.Bytes
import Rucix.Data.Loop

namespace Rucix.Security

open Rucix.Data

/-! System call filters of `kernel/security/seccomp.c`, with the instruction
codes of `kernel/include/bpf.h`.

Filters live in a heap.  The `struct seccomp_data` of a check lies on the stack, so
the model keeps the bytes from its address on, and a load may read behind its end.
-/

structure SockFilter where
  code : UInt16
  jt : UInt8
  jf : UInt8
  k : UInt32
deriving DecidableEq, Repr

/-- The `len` of the source is a `uint16_t` and counts the instructions. -/
structure SockFprog where
  filter : List SockFilter
  bounded : filter.length < 2 ^ 16
deriving DecidableEq

def SockFprog.len (prog : SockFprog) : Nat := prog.filter.length

inductive AluOp where
  | add | sub | mul | div | and | or | xor | lsh | rsh
deriving DecidableEq, Repr

/-- The hardware takes a shift count modulo 32. -/
def AluOp.apply (a k : UInt32) : AluOp → UInt32
  | .add => a + k
  | .sub => a - k
  | .mul => a * k
  | .div => if k = 0 then 0 else a / k
  | .and => a &&& k
  | .or => a ||| k
  | .xor => a ^^^ k
  | .lsh => a <<< k
  | .rsh => a >>> k

inductive JumpOp where
  | jeq | jgt | jge | jset
deriving DecidableEq, Repr

def JumpOp.test (a k : UInt32) : JumpOp → Bool
  | .jeq => a == k
  | .jgt => k < a
  | .jge => k ≤ a
  | .jset => a &&& k != 0

inductive Opcode where
  | ldWAbs
  | ldImm
  | retK
  | retA
  | alu (op : AluOp)
  | neg
  | tax
  | txa
  | ja
  | jump (op : JumpOp)
  | unknown
deriving DecidableEq, Repr

namespace Bpf

def ld : Nat := 0x00
def alu : Nat := 0x04
def jmp : Nat := 0x05
def ret : Nat := 0x06
def misc : Nat := 0x07
def w : Nat := 0x00
def imm : Nat := 0x00
def abs : Nat := 0x20
def add : Nat := 0x00
def sub : Nat := 0x10
def mul : Nat := 0x20
def div : Nat := 0x30
def or : Nat := 0x40
def and : Nat := 0x50
def lsh : Nat := 0x60
def rsh : Nat := 0x70
def neg : Nat := 0x80
def xor : Nat := 0xa0
def ja : Nat := 0x00
def jeq : Nat := 0x10
def jgt : Nat := 0x20
def jge : Nat := 0x30
def jset : Nat := 0x40
def k : Nat := 0x00
def a : Nat := 0x10
def tax : Nat := 0x00
def txa : Nat := 0x80

/-- The cases of the `switch` in `seccomp_run_filter`. -/
def opcodes : List (Nat × Opcode) :=
  [(ld + w + abs, .ldWAbs), (ret + k, .retK), (ret + a, .retA),
    (alu + add + k, .alu .add), (alu + sub + k, .alu .sub), (alu + mul + k, .alu .mul),
    (alu + div + k, .alu .div), (alu + and + k, .alu .and), (alu + or + k, .alu .or),
    (alu + xor + k, .alu .xor), (alu + lsh + k, .alu .lsh), (alu + rsh + k, .alu .rsh),
    (alu + neg, .neg), (ld + imm, .ldImm), (misc + tax, .tax), (misc + txa, .txa),
    (jmp + ja, .ja), (jmp + jeq + k, .jump .jeq), (jmp + jgt + k, .jump .jgt),
    (jmp + jge + k, .jump .jge), (jmp + jset + k, .jump .jset)]

end Bpf

def SockFilter.opcode (inst : SockFilter) : Opcode :=
  (Bpf.opcodes.lookup inst.code.toNat).getD .unknown

def seccompRetKill : UInt32 := 0x00000000
def seccompRetAllow : UInt32 := 0x7fff0000
def seccompRetAction : UInt32 := 0x7fff0000

/-- `sizeof(struct seccomp_data)` -/
def seccompDataSize : Nat := 64

structure BpfState where
  pc : Int
  a : UInt32
  x : UInt32
deriving DecidableEq, Repr

def BpfState.initial : BpfState := ⟨0, 0, 0⟩

/-- The value of an `int` after a computation modulo `2 ^ 32`. -/
def toInt32 (value : Int) : Int := value.bmod (2 ^ 32)

/-- One pass through the `switch`: the state behind it, or the value returned. -/
def execute (sd : Block) (inst : SockFilter) (state : BpfState) : BpfState ⊕ UInt32 :=
  match inst.opcode with
  | .ldWAbs =>
    if inst.k.toNat < seccompDataSize then
      .inl { state with a := UInt32.ofNat (sd.get32 inst.k.toNat) }
    else .inr seccompRetKill
  | .retK => .inr inst.k
  | .retA => .inr state.a
  | .alu op => .inl { state with a := op.apply state.a inst.k }
  | .neg => .inl { state with a := -state.a }
  | .ldImm => .inl { state with a := inst.k }
  | .tax => .inl { state with x := state.a }
  | .txa => .inl { state with a := state.x }
  | .ja => .inl { state with pc := toInt32 (state.pc + inst.k.toNat) }
  | .jump op =>
    let offset := if op.test state.a inst.k then inst.jt else inst.jf
    .inl { state with pc := state.pc + offset.toNat }
  | .unknown => .inr seccompRetKill

/-- How a filter ends: it returns, or it fetches an instruction in front of the
program, which has no defined behaviour. -/
inductive Outcome where
  | returned (value : UInt32)
  | wild
deriving DecidableEq, Repr

def SockFprog.fetch (prog : SockFprog) (pc : Int) : Option SockFilter :=
  if pc < 0 then none else prog.filter[pc.toNat]?

/-- The loop of `seccomp_run_filter`. -/
def filterLoop (sd : Block) (prog : SockFprog) : Loop BpfState Outcome where
  exit state := if state.pc < prog.len then none else some (.returned seccompRetKill)
  body state :=
    match prog.fetch state.pc with
    | none => .inr .wild
    | some inst =>
      match execute sd inst state with
      | .inr value => .inr (.returned value)
      | .inl state => .inl { state with pc := toInt32 (state.pc + 1) }

/-- `fuel` bounds the number of instructions executed. -/
def seccompRunFilter (fuel : Nat) (sd : Block) (prog : SockFprog) : Option Outcome :=
  (filterLoop sd prog).run fuel .initial

structure SeccompFilter where
  refCount : Int
  prog : SockFprog
  prev : Option Nat
deriving DecidableEq

abbrev FilterHeap := Nat → Option SeccompFilter

/-- The process that makes the calls. -/
structure Task where
  seccompFilter : Option Nat
deriving DecidableEq

structure SeccompState where
  filters : FilterHeap
  currentProcess : Option Task

/-- The fields that `seccomp_check_syscall` sets; the arguments are what the
stack held. -/
def seccompData (stack : Block) (syscallNr : Int) : Block :=
  ((stack.put32 0 (syscallNr % 2 ^ 32).toNat).put32 4 0xC000003E).put 8 (List.replicate 8 0)

/-- The loop of `seccomp_check_syscall`.  `runFuel` is for each filter, `fuel`
for the length of the chain. -/
def checkChain (filters : FilterHeap) (runFuel : Nat) (sd : Block) :
    (fuel : Nat) → Option Nat → Option Int
  | _, none => some 0
  | 0, some _ => none
  | fuel + 1, some addr =>
    match filters addr with
    | none => none
    | some filter =>
      match seccompRunFilter runFuel sd filter.prog with
      | some (.returned ret) =>
        if ret &&& seccompRetAction ≠ seccompRetAllow then some (-1)
        else checkChain filters runFuel sd fuel filter.prev
      | _ => none

def seccompCheckSyscall (runFuel fuel : Nat) (state : SeccompState) (stack : Block) (syscallNr : Int) :
    Option Int :=
  match state.currentProcess with
  | none => some 0
  | some task => checkChain state.filters runFuel (seccompData stack syscallNr) fuel task.seccompFilter

/-- `memory` and `buffer` are the results of the two `kmalloc` calls.  The second
one is not checked: copying a program to a null pointer faults. -/
def seccompAttachFilter (state : SeccompState) (prog : SockFprog) (memory : Option Nat) (buffer : Bool) :
    Option (Int × SeccompState) :=
  match state.currentProcess, memory with
  | none, _ => some (-1, state)
  | some _, none => some (-1, state)
  | some task, some addr =>
    if buffer = false ∧ prog.len ≠ 0 then none
    else
      let filter : SeccompFilter := { refCount := 1, prog, prev := task.seccompFilter }
      some (0, { filters := Function.update state.filters addr (some filter)
                 currentProcess := some { seccompFilter := some addr } })

end Rucix.Security
