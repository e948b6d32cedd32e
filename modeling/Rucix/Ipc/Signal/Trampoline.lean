import Rucix.Data.Word
import Rucix.Ipc.Signal.Model

namespace Rucix.Ipc.Signal

open Rucix.Data List AddressSpace

/-! From the delivery of a signal to the trap of its trampoline, which asks for system
call 119.  No entry of `syscall_table` restores a frame.
-/

variable {after : InterruptFrame}

inductive Instruction where
  | movEax (value : BitVec 32)
  | int (vector : UInt8)
deriving DecidableEq

def decode (memory : AddressSpace) (rip : Word) : Option (Instruction × Word) :=
  match memory rip with
  | 0xB8 => some (.movEax ((wordOf (memory.load (rip + 1) 4)).truncate 32), 5)
  | 0xCD => some (.int (memory (rip + 1)), 2)
  | _ => none

/-- What the entry for a vector without error code puts on the stack. -/
def Cpu.trap (cpu : Cpu) (vector : UInt8) : InterruptFrame :=
  { cpu with intNo := BitVec.ofNat 64 vector.toNat, errCode := 0 }

def runToTrap (memory : AddressSpace) : (steps : Nat) → Cpu → Option InterruptFrame
  | 0, _ => none
  | steps + 1, cpu =>
    match decode memory cpu.rip with
    | none => none
    | some (.movEax value, length) =>
      runToTrap memory steps { cpu with rax := value.zeroExtend 64, rip := cpu.rip + length }
    | some (.int vector, length) => some (Cpu.trap { cpu with rip := cpu.rip + length } vector)

/-- The trampoline traps with number 119 and everything else as it was. -/
theorem runToTrap_retCode (code : memory.load cpu.rip 7 = retCode) :
    runToTrap memory 2 cpu = some (Cpu.trap { cpu with rax := 119, rip := cpu.rip + 7 } 0x80) := by
  simp only [load, retCode, List.cons.injEq, and_true, BitVec.add_assoc] at code
  obtain ⟨mov, low, zero, second, third, int, vector⟩ := code
  have first : decode memory cpu.rip = some (.movEax 119, 5) := by
    simp only [decode, mov, load, BitVec.add_assoc, low, zero, second, third]
    rfl
  have last : decode memory (cpu.rip + 5) = some (.int 0x80, 2) := by
    have int : memory (cpu.rip + 5) = 0xCD := int
    simp only [decode, int, BitVec.add_assoc]
    exact congrArg (fun byte => some (Instruction.int byte, (2 : Word))) vector
  simp only [runToTrap, first, last, BitVec.add_assoc]
  rfl

theorem sigframe_below (frame : InterruptFrame) :
    ∃ gap : Nat, gap < 16 ∧ frame.rsp = sigframe frame + BitVec.ofNat 64 (184 + gap) := by
  have mask : ((frame.rsp - sigframeSize) &&& ~~~0xF).toNat =
      (frame.rsp - sigframeSize).toNat / 2 ^ 4 % 2 ^ 60 * 2 ^ 4 := by
    exact land_block_mask _ 4 60
  refine ⟨(frame.rsp - sigframeSize).toNat % 16, Nat.mod_lt _ (by decide), ?_⟩
  apply BitVec.eq_of_toNat_eq
  have size : (frame.rsp - sigframeSize).toNat = _ := BitVec.toNat_sub frame.rsp sigframeSize
  have known : sigframeSize.toNat = 184 := rfl
  rw [BitVec.toNat_add, sigframe, BitVec.toNat_ofNat]
  omega

structure Prepared (frame : InterruptFrame) (sf : Word) (memory : AddressSpace) : Prop where
  saved : memory.load (sf + 8) (8 * frame.words.length) = frame.bytes
  code : memory.load sf 7 = retCode

theorem bytes_length (frame : InterruptFrame) : frame.bytes.length = 176 := by
  simp [InterruptFrame.bytes, InterruptFrame.words, wordBytes_length]

theorem setupFrame_prepared :
    Prepared frame (sigframe frame) (setupFrame sig handler frame memory).2 := by
  have short : retCode.length = 7 := rfl
  constructor
  · -- Neither the code in front nor the return address below overlaps the frame.
    rw [setupFrame, frame.words_length]
    rw [load_store_outside, load_store_outside]
    · exact load_store memory (sigframe frame + 8) (by rw [bytes_length]; decide)
    · bv_omega
    · rw [wordBytes_length]
      bv_omega
  · rw [setupFrame, load_store_outside]
    · exact load_store _ (sigframe frame) (by decide)
    · rw [wordBytes_length]
      bv_omega

theorem setupFrame_return :
    (setupFrame sig handler frame memory).2.loadWord (sigframe frame - 8) = sigframe frame :=
  loadWord_store _

/-- A run of the handler that keeps the sigframe and returns with a balanced
stack: the return address that lay on top of it is popped. -/
structure HandlerReturns (entry : InterruptFrame) (before : AddressSpace) (cpu : Cpu)
    (memory : AddressSpace) : Prop where
  intact : ∀ index, index < 184 →
    memory (entry.rsp + 8 + BitVec.ofNat 64 index) = before (entry.rsp + 8 + BitVec.ofNat 64 index)
  balanced : cpu.rsp = entry.rsp + 8
  returned : cpu.rip = before.loadWord entry.rsp

theorem Prepared.intact (prepared : Prepared frame sf before)
    (same : ∀ index, index < 184 → memory (sf + BitVec.ofNat 64 index) = before (sf + BitVec.ofNat 64 index)) :
    Prepared frame sf memory := by
  constructor
  · rw [← prepared.saved]
    apply load_congr
    intro index inside
    rw [frame.words_length] at inside
    have moved : sf + 8 + BitVec.ofNat 64 index = sf + BitVec.ofNat 64 (8 + index) := by
      rw [BitVec.add_assoc, BitVec.ofNat_add]
      rfl
    rw [moved]
    exact same (8 + index) (by omega)
  · rw [← prepared.code]
    exact load_congr fun index inside => same index (by omega)

theorem HandlerReturns.prepared (returns : HandlerReturns (setupFrame sig handler frame before).1
      (setupFrame sig handler frame before).2 cpu memory) :
    cpu.rsp = sigframe frame ∧ cpu.rip = sigframe frame ∧ Prepared frame (sigframe frame) memory := by
  have top : (setupFrame sig handler frame before).1.rsp + 8 = sigframe frame :=
    BitVec.sub_add_cancel (sigframe frame) 8
  obtain ⟨intact, balanced, returned⟩ := returns
  rw [top] at intact balanced
  exact ⟨balanced, returned.trans (setupFrame_return),
    (setupFrame_prepared).intact intact⟩

theorem Prepared.sysSigreturn (prepared : Prepared frame trap.rsp memory) : (sysSigreturn trap memory).1 = frame := by
  have loaded := loadWords_of_load prepared.saved
  rw [frame.words_length] at loaded
  simp only [Signal.sysSigreturn, loaded]
  exact frame.ofWords_words

structure Process.Delivers (process : Process) (sig : Nat) : Prop where
  number : 1 ≤ sig ∧ sig < 32
  pending : process.pendingSignals &&& 1#32 <<< sig ≠ 0
  handler : process.signalHandler sig ≠ 0 ∧ process.signalHandler sig ≠ 1
  first : ∀ lower, 1 ≤ lower → lower < sig → process.pendingSignals &&& 1#32 <<< lower ≠ 0 →
    process.signalHandler lower = 1

theorem deliver_ignored
    (ignored : ∀ sig ∈ numbers, signals &&& 1#32 <<< sig ≠ 0 → process.signalHandler sig = 1) :
    ∃ later : Process, later.signalHandler = process.signalHandler ∧
      deliver signals frame world (numbers ++ rest) process = deliver signals frame world rest later := by
  induction numbers generalizing process with
  | nil => exact ⟨process, rfl, rfl⟩
  | cons sig numbers ih =>
    rw [cons_append, deliver]
    split
    · exact ih fun other listed => ignored other (mem_cons_of_mem _ listed)
    · next pending =>
      have isIgnored : (process.clear sig).signalHandler sig = 1 :=
        ignored sig mem_cons_self pending
      have others : ∀ other ∈ numbers, signals &&& 1#32 <<< other ≠ 0 →
          (process.clear sig).signalHandler other = 1 := fun other listed =>
        ignored other (mem_cons_of_mem _ listed)
      obtain ⟨later, same, reached⟩ := ih others
      refine ⟨later, same, ?_⟩
      simp only [isIgnored]
      exact reached

theorem signalNumbers_split (number : 1 ≤ sig ∧ sig < 32) :
    ∃ rest, signalNumbers = List.range' 1 (sig - 1) ++ sig :: rest := by
  refine ⟨List.range' (sig + 1) (31 - sig), ?_⟩
  have tail : sig :: List.range' (sig + 1) (31 - sig) = List.range' (1 + (sig - 1)) (31 - sig + 1) := by
    congr 1
    · omega
    · congr 1
      omega
  rw [tail, List.range'_append_1, signalNumbers]
  congr 1
  omega

theorem handlePendingSignals_delivers (current : world.currentProcess = some process)
    (delivers : process.Delivers sig) : ∃ later : Process, handlePendingSignals frame world =
      some ((setupFrame sig (process.signalHandler sig) frame world.memory).1,
        { world with
          currentProcess := some later
          memory := (setupFrame sig (process.signalHandler sig) frame world.memory).2 }) := by
  obtain ⟨rest, split⟩ := signalNumbers_split delivers.number
  have some_pending : process.pendingSignals ≠ 0 := by
    intro none_pending
    apply delivers.pending
    rw [none_pending]
    exact BitVec.zero_and
  have ignored : ∀ lower ∈ List.range' 1 (sig - 1), process.pendingSignals &&& 1#32 <<< lower ≠ 0 →
      process.signalHandler lower = 1 := by
    intro lower listed
    obtain ⟨least, most⟩ := mem_range'_1.mp listed
    exact delivers.first lower least (by omega)
  obtain ⟨later, same, reached⟩ :=
    deliver_ignored ignored
  refine ⟨later.clear sig, ?_⟩
  have handler : (later.clear sig).signalHandler sig = process.signalHandler sig := congrFun same sig
  simp only [handlePendingSignals, current, if_neg some_pending]
  rw [split, reached, deliver, if_neg delivers.pending]
  simp only [handler, if_neg delivers.handler.1, if_neg delivers.handler.2]

/-- A frame that the loop leaves is as it was or that of a delivered signal. -/
theorem deliver_rsp (delivered : deliver signals frame world numbers process = some (after, final)) :
    after.rsp = frame.rsp ∨ after.rsp = sigframe frame - 8 := by
  fun_induction deliver signals frame world numbers process with
  | case1 =>
    cases delivered
    exact .inl rfl
  | case2 _ _ _ _ ih | case4 _ _ _ _ _ _ _ _ ih => exact ih delivered
  | case3 => cases delivered
  | case5 =>
    rename_i framed
    cases delivered
    cases framed
    exact .inr rfl

theorem handlePendingSignals_rsp (handled : handlePendingSignals frame world = some (after, final)) :
    after.rsp = frame.rsp ∨ after.rsp = sigframe frame - 8 := by
  simp only [handlePendingSignals] at handled
  split at handled
  · cases handled
    exact .inl rfl
  · split at handled
    · cases handled
      exact .inl rfl
    · exact deliver_rsp handled

/-- The dispatcher changes the stack pointer of a frame only to deliver another
signal. -/
theorem syscallHandler_rsp (handled : syscallHandler known frame world = some (after, final)) :
    after.rsp = frame.rsp ∨ after.rsp = sigframe frame - 8 := by
  rw [syscallHandler] at handled
  split at handled
  · cases handled
    exact .inl rfl
  · obtain ⟨⟨value, later⟩, -, delivered⟩ := Option.bind_eq_some_iff.mp handled
    have left := handlePendingSignals_rsp
      (show handlePendingSignals { frame with rax := value } later = some (after, final) from delivered)
    exact left

/-- Number 119 is refused, and the code behind the trap is next. -/
theorem syscallHandler_unknown (number : frame.rax = 119) (allowed : world.seccomp 119 = 0) :
    syscallHandler known frame world = handlePendingSignals { frame with rax := -1 } world := by
  have entry : syscallInit[frame.rax.toNat]? = some .unknown := by
    rw [number]
    decide +kernel
  have check : ¬world.seccomp (frame.rax.truncate 32).toInt ≠ 0 := by
    rw [number]
    exact not_not.mpr allowed
  simp only [syscallHandler, if_neg check, entry]
  rfl

/-- A stack pointer that has gone down for one signal or two is not back. -/
theorem rsp_ne (stack : trap.rsp = sigframe frame) (left : after.rsp = trap.rsp ∨ after.rsp = sigframe trap - 8) :
    after.rsp ≠ frame.rsp := by
  obtain ⟨gap, small, above⟩ := sigframe_below frame
  obtain ⟨gap', small', above'⟩ := sigframe_below trap
  rcases left with kept | lower
  · bv_omega
  · bv_omega

/-- The trampoline traps with a frame from which `sys_sigreturn` would restore every field
of the interrupted one; `syscall_handler` does not come back with that frame. -/
theorem trampoline_not_restored (current : world.currentProcess = some process) (delivers : process.Delivers sig)
    (frame : InterruptFrame) :
    ∃ entry delivered, handlePendingSignals frame world = some (entry, delivered) ∧
      entry.rip = process.signalHandler sig ∧
      ∀ cpu memory, HandlerReturns entry delivered.memory cpu memory →
        ∃ trap, runToTrap memory 2 cpu = some trap ∧ trap.intNo = 128 ∧
          (sysSigreturn trap memory).1 = frame ∧
          ∀ known later after final, later.memory = memory →
            syscallHandler known trap later = some (after, final) → after.rsp ≠ frame.rsp := by
  obtain ⟨later, handled⟩ := handlePendingSignals_delivers current delivers
  refine ⟨_, _, handled, rfl, fun cpu memory returns => ?_⟩
  obtain ⟨stack, code, prepared⟩ := returns.prepared
  refine ⟨_, runToTrap_retCode (code ▸ prepared.code), rfl, ?_, ?_⟩
  · exact Prepared.sysSigreturn (stack ▸ prepared)
  · intro known later after final _ handled
    exact rsp_ne stack (syscallHandler_rsp handled)

def interrupted : InterruptFrame := { InterruptFrame.ofWords [] with rip := 64, rsp := 4096 }

def signalled : World :=
  { currentProcess := some { pendingSignals := 1#32 <<< 10, signalHandler := fun _ => 8192 }
    memory := fun _ => 0
    seccomp := fun _ => 0 }

def InterruptFrame.ret (entry : InterruptFrame) (memory : AddressSpace) : Cpu :=
  { entry.toCpu with rsp := entry.rsp + 8, rip := memory.loadWord entry.rsp }

theorem HandlerReturns.ret (entry : InterruptFrame) (memory : AddressSpace) :
    HandlerReturns entry memory (entry.ret memory) memory :=
  ⟨fun _ _ => rfl, rfl, rfl⟩

theorem signalled_delivers : Process.Delivers { pendingSignals := 1#32 <<< 10, signalHandler := fun _ => 8192 } 10 where
  number := by decide
  pending := by decide
  handler := by decide
  first := by
    intro lower least most pending
    have others : ∀ lower : Fin 10, 1#32 <<< 10 &&& 1#32 <<< lower.val = 0 := by decide
    exact absurd (others ⟨lower, most⟩) pending

theorem trampoline_not_restored_ret :
    ∃ entry delivered trap, handlePendingSignals interrupted signalled = some (entry, delivered) ∧
      runToTrap delivered.memory 2 (entry.ret delivered.memory) = some trap ∧
      (sysSigreturn trap delivered.memory).1 = interrupted := by
  have current : signalled.currentProcess = some _ := rfl
  obtain ⟨entry, delivered, handled, -, back⟩ :=
    trampoline_not_restored current signalled_delivers interrupted
  obtain ⟨trap, trapped, -, restored, -⟩ := back _ _ (.ret entry delivered.memory)
  exact ⟨entry, delivered, trap, handled, trapped, restored⟩

/-- The trap comes back 192 bytes below the interrupted stack, with -1. -/
theorem sigreturn_refused :
    ∃ entry delivered trap after final, handlePendingSignals interrupted signalled = some (entry, delivered) ∧
      HandlerReturns entry delivered.memory (entry.ret delivered.memory) delivered.memory ∧
      runToTrap delivered.memory 2 (entry.ret delivered.memory) = some trap ∧
      syscallHandler (fun _ _ _ _ _ => none) trap delivered = some (after, final) ∧
      after.rsp = 3904 ∧ after.rax = -1 ∧ interrupted.rsp = 4096 := by
  have returns := HandlerReturns.ret (setupFrame 10 8192 interrupted signalled.memory).1
    (setupFrame 10 8192 interrupted signalled.memory).2
  obtain ⟨stack, code, prepared⟩ := returns.prepared
  exact ⟨_, _, _, _, _, rfl, returns, runToTrap_retCode (code ▸ prepared.code),
    syscallHandler_unknown rfl rfl, by decide +kernel, rfl, rfl⟩

end Rucix.Ipc.Signal
