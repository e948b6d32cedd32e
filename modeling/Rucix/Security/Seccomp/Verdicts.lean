import Rucix.Security.Seccomp.Narrowing

namespace Rucix.Security

open Rucix.Data Function List

/-! What a check depends on besides the filters and the number: the bytes of the stack that
`seccomp_check_syscall` leaves in the arguments.  A run keeps track of the registers that
hold such bytes.
-/

variable {prog : SockFprog} {inst : SockFilter} {one two : BpfState} {filters : FilterHeap}
  {chain : List SeccompFilter} {head : Option Nat}

/-- Whether the registers hold what lay on the stack. -/
structure Stale where
  a : Bool
  x : Bool

namespace Stale

def initial : Stale := ⟨false, false⟩

def next (stale : Stale) (inst : SockFilter) : Stale :=
  match inst.opcode with
  | .ldWAbs => { stale with a := 12 < inst.k.toNat }
  | .ldImm => { stale with a := false }
  | .tax => { stale with x := stale.a }
  | .txa => { stale with a := stale.x }
  | _ => stale

/-- The instruction tests or returns what lay on the stack. -/
def sways (stale : Stale) (inst : SockFilter) : Bool :=
  match inst.opcode with
  | .retA | .jump _ => stale.a
  | _ => false

structure Agrees (stale : Stale) (one two : BpfState) : Prop where
  pc : one.pc = two.pc
  a : stale.a = false → one.a = two.a
  x : stale.x = false → one.x = two.x

end Stale

theorem seccompData_congr (set : place < 16) :
    seccompData first syscallNr place = seccompData second syscallNr place := by
  have whole : ∀ stack, seccompData stack syscallNr = stack.put 0
      (Block.bytes32 (syscallNr % 2 ^ 32).toNat ++ Block.bytes32 0xC000003E ++ replicate 8 0) := by
    intro stack
    rw [← Block.put_append, ← Block.put_append]
    rfl
  rw [whole, whole, ← Nat.zero_add place, Block.put_inside, Block.put_inside]
  exact set

theorem Stale.Agrees.advance {stale : Stale} (agrees : stale.Agrees one two) :
    stale.Agrees { one with pc := toInt32 (one.pc + 1) } { two with pc := toInt32 (two.pc + 1) } :=
  ⟨congrArg (toInt32 <| · + 1) agrees.pc, agrees.a, agrees.x⟩

theorem Stale.Agrees.execute {stale : Stale} (agrees : stale.Agrees one two) (fixed : stale.sways inst = false)
    (first second : Block) (syscallNr : Int) :
    Sum.LiftRel (stale.next inst).Agrees Eq (execute (seccompData first syscallNr) inst one)
      (execute (seccompData second syscallNr) inst two) := by
  obtain ⟨pc, a, x⟩ := agrees
  cases code : inst.opcode <;> simp only [Stale.sways, code] at fixed <;>
    simp only [Security.execute, Stale.next, code]
  case ldWAbs =>
    split
    · refine .inl ⟨pc, fun set => congrArg UInt32.ofNat (Block.get32_congr fun _ small => seccompData_congr ?_), x⟩
      have low : ¬ 12 < inst.k.toNat := of_decide_eq_false set
      omega
    · exact .inr rfl
  case retK | unknown => exact .inr rfl
  case retA => exact .inr (a fixed)
  case alu | neg => exact .inl ⟨pc, fun fresh => by rw [a fresh], x⟩
  case ldImm => exact .inl ⟨pc, fun _ => rfl, x⟩
  case tax => exact .inl ⟨pc, a, a⟩
  case txa => exact .inl ⟨pc, x, x⟩
  case ja => exact .inl ⟨by rw [pc], a, x⟩
  case jump => exact .inl ⟨by rw [pc, a fixed], a, x⟩

def SeccompState.running (prog : SockFprog) : SeccompState :=
  ⟨update (fun _ => none) 7 (some { refCount := 1, prog, prev := none }), some ⟨some 7⟩⟩

end Rucix.Security
