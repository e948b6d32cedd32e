import Rucix.Ipc.Msg.Queue

namespace Rucix.Ipc

open Rucix.Data List MsgQueue

/-! The sizes of the messages as the `int` that they are.

`sys_msgsnd` refuses sizes above `MSG_SIZE` only, and `memcpy` takes a negative size for
one near 2^64.
-/

structure SizedEntry where
  type : Int
  size : Int
deriving DecidableEq

/-- The `size_t` that `memcpy` gets. -/
def copySize (size : Int) : Nat := (size % 2 ^ 64).toNat

inductive SizedOp where
  | msgsnd (type msgsz : Int) (memory : Bool)
  | msgrcv (msgsz msgtyp : Int)

def SizedOp.msgsz : SizedOp → Int
  | .msgsnd _ msgsz _ | .msgrcv msgsz _ => msgsz

/-- The sizes that a call copies, and the entries in the order of their links.  `memory`
says whether `kmalloc` succeeds. -/
def SizedOp.perform (queue : List SizedEntry) : SizedOp → List Nat × List SizedEntry
  | .msgsnd type msgsz memory =>
    if msgSize < msgsz ∨ memory = false then ([], queue)
    else ([copySize msgsz], queue ++ [⟨type, msgsz⟩])
  | .msgrcv msgsz msgtyp =>
    match queue.find? (Accepts msgtyp ·.type) with
    | none => ([], queue)
    | some entry =>
      ([copySize (if msgsz < entry.size then msgsz else entry.size)], queue.eraseP (Accepts msgtyp ·.type))

def SizedStep (before : List SizedEntry) (op : SizedOp) (after : List SizedEntry) : Prop :=
  0 ≤ op.msgsz ∧ (op.perform before).2 = after

def SizedEntry.InRange (entry : SizedEntry) : Prop := 0 ≤ entry.size ∧ entry.size ≤ msgSize

variable {queue after : List SizedEntry} {op : SizedOp}

theorem SizedOp.perform_cases (sound : ∀ entry ∈ queue, entry.InRange) (positive : 0 ≤ op.msgsz) :
    op.perform queue = ([], queue) ∨ ∃ size later, op.perform queue = ([copySize size], later) ∧
      0 ≤ size ∧ size ≤ msgSize ∧ size ≤ op.msgsz ∧ ∀ entry ∈ later, entry.InRange := by
  cases op with
  | msgsnd type msgsz memory =>
    simp only [perform]
    split
    · exact .inl rfl
    · rename_i accepted
      have small : msgsz ≤ msgSize := Int.not_lt.mp fun long => accepted (.inl long)
      exact .inr ⟨msgsz, _, rfl, positive, small, Int.le_refl _,
        forall_mem_append.mpr ⟨sound, forall_mem_singleton.mpr ⟨positive, small⟩⟩⟩
  | msgrcv msgsz msgtyp =>
    simp only [perform]
    split
    · exact .inl rfl
    · rename_i entry found
      obtain ⟨lower, upper⟩ := sound entry (mem_of_find?_eq_some found)
      have asked : 0 ≤ msgsz := positive
      refine .inr ⟨_, _, rfl, ?_, ?_, ?_, fun entry member => sound entry (mem_of_mem_eraseP member)⟩
      · split <;> omega
      · split <;> omega
      · change _ ≤ msgsz
        split <;> omega

theorem SizedStep.inRange (step : SizedStep queue op after) (sound : ∀ entry ∈ queue, entry.InRange) :
    ∀ entry ∈ after, entry.InRange := by
  obtain ⟨positive, rfl⟩ := step
  rcases op.perform_cases sound positive with same | ⟨size, later, same, -, -, -, inRange⟩ <;> rw [same]
  · exact sound
  · exact inRange

/-! With sizes that are not negative this is what the queue of entries does. -/

def MsgOp.sized : MsgOp → SizedOp
  | .msgsnd type text memory _ => .msgsnd type text.length memory.isSome
  | .msgrcv msgtyp msgsz _ => .msgrcv msgsz msgtyp

def Delivery.sized (message : Delivery) : SizedEntry := ⟨message.type, message.text.length⟩

theorem MsgStep.sized {before after : MsgQueue} {op : MsgOp} (chained : before.Chained addresses)
    (step : MsgStep before op after) : ∃ later, after.Chained later ∧
      SizedStep (addresses.map (before.message · |>.sized)) op.sized (later.map (after.message · |>.sized)) := by
  cases op with
  | msgsnd type text memory result =>
    rcases chained.sysMsgsnd step.1 step.2 with ⟨failed, -, rfl⟩ |
      ⟨address, garbage, rfl, short, -, fresh, longer, added, kept⟩
    · refine ⟨addresses, chained, Int.natCast_nonneg _, congrArg Prod.snd (if_pos ?_)⟩
      simpa using failed
    · refine ⟨_, longer, Int.natCast_nonneg _, ?_⟩
      have same : addresses.map (after.message · |>.sized) = addresses.map (before.message · |>.sized) :=
        map_congr_left fun other member => by rw [kept other (ne_of_mem_of_not_mem member fresh)]
      rw [MsgOp.sized, SizedOp.perform, if_neg (by simp; omega), map_append, same, map_singleton, added]
      rfl
  | msgrcv msgtyp msgsz result =>
    obtain ⟨fuel, done⟩ := step
    have unwanted : ∀ part : List Nat, (∀ address ∈ part, before.Rejects msgtyp address) →
        ∀ entry ∈ part.map (before.message · |>.sized), ¬Accepts msgtyp entry.type := by
      simp +contextual [Rejects, Delivery.sized]
    rcases chained.sysMsgrcv done with ⟨rejected, -, rfl⟩ |
      ⟨front, address, behind, rfl, passed, accepted, -, shorter, same⟩
    · refine ⟨addresses, chained, Int.natCast_nonneg _, ?_⟩
      simp only [MsgOp.sized, SizedOp.perform, find?_eq_none.mpr (unwanted addresses rejected)]
    · refine ⟨_, shorter, Int.natCast_nonneg _, ?_⟩
      have wanted : Accepts msgtyp (before.message address).sized.type := by
        simpa [Rejects, Delivery.sized] using accepted
      simp [same, MsgOp.sized, SizedOp.perform, find?_eq_none.mpr (unwanted front passed), wanted,
        eraseP_append_right _ (unwanted front passed)]

/-- The sizes of every run of the queue are a run of sizes. -/
theorem sized_run {trace : List MsgOp} {final : MsgQueue} {memory : Nat → MsgEntry}
    (run : Run MsgStep (create memory) trace final) :
    ∃ addresses, final.Chained addresses ∧
      Run SizedStep [] (trace.map MsgOp.sized) (addresses.map (final.message · |>.sized)) := by
  induction run with
  | nil => exact ⟨[], chained_create memory, .nil⟩
  | snoc _ step ih =>
    obtain ⟨addresses, chained, run⟩ := ih
    obtain ⟨later, kept, sized⟩ := step.sized chained
    refine ⟨later, kept, ?_⟩
    rw [map_append]
    exact run.snoc sized

/-- With sizes that are not negative every copy and every stored size is within
`MSG_SIZE`, and a receiver gets no more than it asked for. -/
theorem sized_copies_bounded {trace : List SizedOp} (run : Run SizedStep [] trace queue) :
    (∀ entry ∈ queue, entry.InRange) ∧ ∀ op : SizedOp, 0 ≤ op.msgsz → ∀ size ∈ (op.perform queue).1,
      size ≤ msgSize ∧ (size : Int) ≤ max op.msgsz 0 := by
  have sound : ∀ entry ∈ queue, entry.InRange := run.invariant nofun fun _ _ _ sound step => step.inRange sound
  refine ⟨sound, fun op positive size member => ?_⟩
  rcases op.perform_cases sound positive with same | ⟨size, later, same, lower, upper, asked, -⟩ <;>
    rw [same] at member
  · cases member
  · rw [mem_singleton.mp member, copySize]
    omega

theorem sized_copies_bounded_send : 2 ∈ ((SizedOp.msgrcv 2 0).perform [⟨5, 7⟩]).1 ∧ 2 ≤ msgSize := by
  have run : Run SizedStep [] [.msgsnd 5 7 true] [⟨5, 7⟩] := .snoc .nil ⟨by decide, rfl⟩
  exact ⟨by decide, ((sized_copies_bounded run).2 (.msgrcv 2 0) (by decide) 2 (by decide)).1⟩

/-- The copy overruns the entry, and its negative size is stored for a later receive. -/
theorem negative_size_copied :
    (SizedOp.msgsnd 5 (-1) true).perform [] = ([18446744073709551615], [⟨5, -1⟩]) ∧
      ((SizedOp.msgrcv 8 0).perform [⟨5, -1⟩]).1 = [18446744073709551615] := by
  decide

end Rucix.Ipc
