import Rucix.Data.Run
import Rucix.Ipc.Signal.Trampoline

namespace Rucix.Ipc.Signal

open Rucix.Data AddressSpace

/-! Signals that interrupt the handlers of others: `setup_frame` once for every level, and
`sys_sigreturn` on the way back.
-/

variable {frame outer : InterruptFrame} {memory : AddressSpace}

/-- One more signal, whose handler lowers its stack before the next one arrives. -/
structure Level where
  sig : Nat
  handler : Word
  lowered : Nat

/-- The frames that were interrupted so far, the innermost first. -/
structure Nested where
  frame : InterruptFrame
  memory : AddressSpace
  saved : List InterruptFrame

variable {state after : Nested} {level : Level}

def Nested.deliver (state : Nested) (level : Level) : Nested :=
  let (entry, memory) := setupFrame level.sig level.handler state.frame state.memory
  { frame := { entry with rsp := entry.rsp - BitVec.ofNat 64 level.lowered }
    memory
    saved := state.frame :: state.saved }

/-- The stack that the level uses does not wrap around. -/
def Nested.Fits (state : Nested) (level : Level) : Prop :=
  184 ≤ state.frame.rsp.toNat ∧ 8 + level.lowered ≤ (sigframe state.frame).toNat

instance : Decidable (state.Fits level) := inferInstanceAs (Decidable (_ ∧ _))

def NestStep (before : Nested) (level : Level) (after : Nested) : Prop :=
  before.Fits level ∧ after = before.deliver level

theorem sigframe_end_le (room : 184 ≤ frame.rsp.toNat) :
    (sigframe frame).toNat + 184 ≤ frame.rsp.toNat := by
  have aligned : (sigframe frame).toNat ≤ (frame.rsp - sigframeSize).toNat := by
    rw [sigframe, BitVec.toNat_and]
    exact Nat.and_le_left
  have size : sigframeSize.toNat = 184 := rfl
  rw [BitVec.toNat_sub] at aligned
  omega

/-- Nothing above the interrupted stack changes. -/
theorem setupFrame_above (room : 184 ≤ frame.rsp.toNat) (low : 8 ≤ (sigframe frame).toNat)
    (above : frame.rsp.toNat ≤ position.toNat) :
    (setupFrame sig handler frame memory).2 position = memory position := by
  have below := sigframe_end_le room
  have code : retCode.length = 7 := rfl
  change ((memory.store _ _).store _ _).store (sigframe frame - 8) _ position = _
  rw [store_outside, store_outside, store_outside]
  · rw [bytes_length]
    bv_omega
  · bv_omega
  · rw [wordBytes_length]
    bv_omega

/-- Every interrupted frame is saved above the stack that is in use. -/
structure Nested.Unwinds (state : Nested) : Prop where
  prepared : ∀ outer ∈ state.saved, Prepared outer (sigframe outer) state.memory
  above : ∀ outer ∈ state.saved, state.frame.rsp.toNat + 8 ≤ (sigframe outer).toNat
  inside : ∀ outer ∈ state.saved, (sigframe outer).toNat + 184 ≤ 2 ^ 64

namespace Nested.Unwinds

variable (unwinds : state.Unwinds)
include unwinds

theorem untouched (fits : state.Fits level) (held : outer ∈ state.saved) (within : index < 192) :
    (state.deliver level).memory (sigframe outer - 8 + BitVec.ofNat 64 index) =
      state.memory (sigframe outer - 8 + BitVec.ofNat 64 index) := by
  have above := unwinds.above outer held
  have inside := unwinds.inside outer held
  obtain ⟨room, low⟩ := fits
  exact setupFrame_above room (by omega) (by bv_omega)

theorem deliver (fits : state.Fits level) : (state.deliver level).Unwinds := by
  obtain ⟨room, low⟩ := fits
  have below := sigframe_end_le room
  have next : (state.deliver level).frame.rsp.toNat + 8 ≤ (sigframe state.frame).toNat := by
    change (sigframe state.frame - 8 - BitVec.ofNat 64 level.lowered).toNat + 8 ≤ _
    bv_omega
  refine ⟨fun outer held => ?_, fun outer held => ?_, fun outer held => ?_⟩ <;>
    rcases List.mem_cons.mp held with rfl | held
  · exact setupFrame_prepared
  · refine (unwinds.prepared outer held).intact fun index small => ?_
    have moved : sigframe outer + BitVec.ofNat 64 index =
        sigframe outer - 8 + BitVec.ofNat 64 (index + 8) := by bv_omega
    rw [moved]
    exact unwinds.untouched ⟨room, low⟩ held (by omega)
  · exact next
  · have := unwinds.above outer held
    omega
  · omega
  · exact unwinds.inside outer held

end Nested.Unwinds

theorem sysSigreturn_all {saved traps : List InterruptFrame}
    (prepared : ∀ outer ∈ saved, Prepared outer (sigframe outer) memory)
    (pointers : traps.map (·.rsp) = saved.map sigframe) :
    traps.map (fun trap => (sysSigreturn trap memory).1) = saved := by
  induction saved generalizing traps with
  | nil => simpa using pointers
  | cons outer saved ih =>
    obtain ⟨trap, rest, rfl, pointer, others⟩ := List.map_eq_cons_iff.mp pointers
    have first : Prepared outer trap.rsp memory := pointer ▸ prepared outer List.mem_cons_self
    rw [List.map_cons, first.sysSigreturn, ih (fun other held => prepared other (.tail _ held)) others]

/-- Called with the stack at the saved frames, the innermost first, `sys_sigreturn` gives
back each of them; and a further level touches neither a saved sigframe nor its return
address. -/
theorem nested_frames_unwind (run : Run NestStep ⟨frame, memory, []⟩ levels state) :
    state.saved.length = levels.length ∧
    (∀ traps : List InterruptFrame, traps.map (·.rsp) = state.saved.map sigframe →
      traps.map (fun trap => (sysSigreturn trap state.memory).1) = state.saved) ∧
    ∀ level after, NestStep state level after → ∀ outer ∈ state.saved, ∀ index < 192,
      after.memory (sigframe outer - 8 + BitVec.ofNat 64 index) =
        state.memory (sigframe outer - 8 + BitVec.ofNat 64 index) := by
  have unwinds : state.Unwinds := by
    refine run.invariant ⟨nofun, nofun, nofun⟩ fun before level after unwinds step => ?_
    obtain ⟨fits, rfl⟩ := step
    exact unwinds.deliver fits
  refine ⟨?_, fun traps => sysSigreturn_all unwinds.prepared, fun level after step outer held index => ?_⟩
  · clear unwinds
    induction run with
    | nil => rfl
    | snoc _ last ih =>
      obtain ⟨-, rfl⟩ := last
      simp [Nested.deliver, ih]
  · obtain ⟨fits, rfl⟩ := step
    exact unwinds.untouched fits held

theorem nested_frames_unwind_twice :
    let first : Nested := ⟨interrupted, fun _ => 0, []⟩
    let second := first.deliver ⟨10, 8192, 24⟩
    let state := second.deliver ⟨12, 12288, 0⟩
    (sysSigreturn { interrupted with rsp := sigframe second.frame } state.memory).1 = second.frame ∧
      (sysSigreturn { interrupted with rsp := sigframe interrupted } state.memory).1 = interrupted := by
  intro first second state
  have run : Run NestStep first ([] ++ [_] ++ [_]) state :=
    .snoc (.snoc .nil ⟨by decide, rfl⟩) ⟨by decide, rfl⟩
  have unwound := (nested_frames_unwind run).2.1
    [{ interrupted with rsp := sigframe second.frame }, { interrupted with rsp := sigframe interrupted }] rfl
  obtain ⟨inner, rest⟩ := List.cons.inj unwound
  exact ⟨inner, (List.cons.inj rest).1⟩

end Rucix.Ipc.Signal
