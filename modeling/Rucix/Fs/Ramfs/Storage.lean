import Rucix.Data.Run
import Rucix.Data.Word
import Rucix.Data.Writes

namespace Rucix.Fs.Ramfs

open Rucix.Data List

/-! The bytes of regular files: `ramfs_read` and `ramfs_write` of
`kernel/fs/ramfs.c` and the position of `vfs_lseek` of `kernel/fs/vfs.c`.

The outcome of `kmalloc` is an argument, with what the block held before.  A result
`none` stands for a copy through a null pointer or outside of the buffer.
-/

/-- A regular inode with its `struct ramfs_inode_info`.  The buffer `data` has
`capacity` bytes. -/
structure RegularInode where
  data : Option Block
  capacity : Nat
  iSize : Nat

namespace RegularInode

def ramfsGetInode : RegularInode where
  data := none
  capacity := 0
  iSize := 0

/-- `memcpy(info->data + offset, bytes, count)`. -/
def copyIn (inode : RegularInode) (offset : Nat) (bytes : List UInt8) : Option RegularInode :=
  if bytes = [] then some inode
  else
    match inode.data with
    | none => none
    | some data =>
      if offset + bytes.length ≤ inode.capacity then
        some { inode with data := some (data.put offset bytes) }
      else none

/-- `memcpy(buf, info->data + offset, count)`. -/
def copyOut (inode : RegularInode) (offset count : Nat) : Option (List UInt8) :=
  if count = 0 then some []
  else
    match inode.data with
    | none => none
    | some data =>
      if offset + count ≤ inode.capacity then
        some ((List.range count).map fun index => data (offset + index))
      else none

/-- The return value, `*offset` and the bytes copied.  The smaller count fits
in the `int` that held the larger one. -/
def ramfsRead (inode : RegularInode) (count offset : Nat) : Option (Int × Nat × List UInt8) :=
  if inode.iSize ≤ offset then some (0, offset, [])
  else
    let count := if inode.iSize < wrap 64 (offset + count) then inode.iSize - offset else count
    (inode.copyOut offset count).map fun bytes => (count, wrap 64 (offset + count), bytes)

def regrow (inode : RegularInode) (newCap : Nat) (memory : Block) : RegularInode :=
  let newData :=
    match inode.data with
    | some data => memory.copy data inode.iSize
    | none => memory.copy .zero newCap
  { inode with data := some newData, capacity := newCap }

/-- Make room for `required` bytes; `none` when there is no memory. -/
def reserve (inode : RegularInode) (required : Nat) (memory : Option Block) :
    Option RegularInode :=
  if inode.capacity < required then
    memory.map (inode.regrow (wrap 64 (required + 4095) &&& (2 ^ 64 - 4096)))
  else some inode

/-- The return value, `*offset` and the inode. -/
def ramfsWrite (inode : RegularInode) (bytes : List UInt8) (offset : Nat)
    (memory : Option Block) : Option (Int × Nat × RegularInode) :=
  match inode.reserve (wrap 64 (offset + bytes.length)) memory with
  | none => some (-1, offset, inode)
  | some inode =>
    (inode.copyIn offset bytes).map fun inode =>
      let offset := wrap 64 (offset + bytes.length)
      (bytes.length, offset, { inode with iSize := if inode.iSize < offset then offset else inode.iSize })

end RegularInode

inductive Whence where
  | seekSet
  | seekCur
  | seekEnd
  | other

/-- The return value and `f_pos` for a file without an `llseek` operation.
`new_pos` is an `int`. -/
def vfsLseek (fPos iSize : Nat) (offset : Int) (whence : Whence) : Int × Nat :=
  let newPos :=
    match whence with
    | .seekSet => some offset
    | .seekCur => some ((Int.bmod fPos (2 ^ 32) + offset).bmod (2 ^ 32))
    | .seekEnd => some ((iSize + offset).bmod (2 ^ 32))
    | .other => none
  match newPos with
  | none => (-1, fPos)
  | some newPos => if newPos < 0 then (-1, fPos) else (newPos, newPos.toNat)

inductive DataEvent where
  | write (call : Write) (memory : Option Block) (result : Int) (offset : Nat)
  | read (count offset : Nat) (result : Int) (final : Nat) (bytes : List UInt8)

def succeeded (trace : List DataEvent) : List Write :=
  trace.filterMap fun
    | .write call _ result _ => if result = -1 then none else some call
    | .read .. => none

inductive DataStep (before : RegularInode) : DataEvent → RegularInode → Prop where
  | write {call : Write} {memory : Option Block} {result : Int} {offset : Nat}
      {after : RegularInode} (bound : call.finish < 2 ^ 64 - 4096)
      (wrote : before.ramfsWrite call.bytes call.offset memory = some (result, offset, after)) :
      DataStep before (.write call memory result offset) after
  | read {count offset final : Nat} {result : Int} {bytes : List UInt8}
      (bound : offset + count < 2 ^ 64 - 4096)
      (read : before.ramfsRead count offset = some (result, final, bytes)) :
      DataStep before (.read count offset result final bytes) before

variable {inode : RegularInode} {writes : List Write} {call : Write} {memory : Option Block}

theorem roundUp_capacity (bound : required < 2 ^ 64 - 4096) :
    wrap 64 (required + 4095) &&& (2 ^ 64 - 4096) = (required + 4095) / 4096 * 4096 := by
  have mask := land_block_mask (required + 4095) 12 52
  have block : (2 ^ 52 - 1) <<< 12 = 2 ^ 64 - 4096 := by decide
  rw [block] at mask
  rw [wrap_of_lt (by omega), mask]
  omega

/-- The buffer holds the last byte written to every position that was written. -/
structure Holds (inode : RegularInode) (writes : List Write) : Prop where
  aligned : 4096 ∣ inode.capacity
  bounded : inode.capacity ≤ 2 ^ 64 - 4096
  size : inode.iSize = furthest writes
  within : inode.iSize ≤ inode.capacity
  allocated : inode.data = none → inode.capacity = 0
  kept : ∀ data ∈ inode.data, ∀ position byte,
    lastWritten writes position = some byte → data position = byte

theorem Holds.initial : Holds .ramfsGetInode [] where
  aligned := ⟨0, rfl⟩
  bounded := Nat.zero_le _
  size := rfl
  within := Nat.le_refl 0
  allocated := fun _ => rfl
  kept := by
    intro data held
    cases held

def RegularInode.store (inode : RegularInode) (call : Write) : RegularInode :=
  { inode with
    data := inode.data.map fun data => data.put call.offset call.bytes
    iSize := max inode.iSize call.finish }

namespace Holds

variable (holds : Holds inode writes)
include holds

theorem regrow (growing : inode.capacity < required) (bound : required < 2 ^ 64 - 4096) :
    Holds (inode.regrow ((required + 4095) / 4096 * 4096) block) writes where
  aligned := ⟨_, Nat.mul_comm _ _⟩
  bounded := by
    simp only [RegularInode.regrow]
    omega
  size := holds.size
  within := by
    have within := holds.within
    simp only [RegularInode.regrow]
    omega
  allocated := by
    intro missing
    cases missing
  kept := by
    intro data held position byte written
    have early := lt_furthest written
    rw [← holds.size] at early
    simp only [RegularInode.regrow, Option.mem_def, Option.some.injEq] at held
    subst held
    cases old : inode.data with
    | none =>
      have := holds.allocated old
      have := holds.within
      omega
    | some data =>
      simp only [Block.copy, early]
      exact holds.kept data old position byte written

theorem reserve (bound : required < 2 ^ 64 - 4096)
    (reserved : inode.reserve required memory = some grown) : Holds grown writes ∧ required ≤ grown.capacity := by
  rw [RegularInode.reserve] at reserved
  by_cases growing : inode.capacity < required
  · rw [if_pos growing, roundUp_capacity bound, Option.map_eq_some_iff] at reserved
    obtain ⟨block, _, rfl⟩ := reserved
    refine ⟨holds.regrow growing bound, ?_⟩
    simp only [RegularInode.regrow]
    omega
  · rw [if_neg growing, Option.some.injEq] at reserved
    subst reserved
    exact ⟨holds, by omega⟩

theorem copyIn (room : call.finish ≤ inode.capacity) :
    inode.copyIn call.offset call.bytes =
      some { inode with data := inode.data.map fun data => data.put call.offset call.bytes } := by
  rw [RegularInode.copyIn]
  by_cases empty : call.bytes = []
  · rw [if_pos empty]
    simp only [empty, Block.put_nil, Option.map_id_fun', id_eq]
  · have positive := length_pos_iff.mpr empty
    rw [Write.finish] at room
    cases old : inode.data with
    | none => have := holds.allocated old; omega
    | some data => exact (if_neg empty).trans (if_pos room)

theorem store (room : call.finish ≤ inode.capacity) :
    Holds (inode.store call) (writes ++ [call]) where
  aligned := holds.aligned
  bounded := holds.bounded
  size := by
    rw [furthest_snoc, ← holds.size]
    rfl
  within := Nat.max_le.mpr ⟨holds.within, room⟩
  allocated := fun missing => holds.allocated (Option.map_eq_none_iff.mp missing)
  kept := by
    intro data held position byte written
    obtain ⟨old, stored, rfl⟩ := Option.map_eq_some_iff.mp held
    rw [call.put_apply]
    rw [lastWritten_snoc, Option.or_eq_some_iff] at written
    rcases written with new | ⟨missing, earlier⟩
    · rw [new, Option.getD_some]
    · rw [missing]
      exact holds.kept old stored position byte earlier

/-- A write either finds no memory and changes nothing, or stores all its bytes. -/
theorem ramfsWrite (bound : call.finish < 2 ^ 64 - 4096) (memory : Option Block) :
    inode.ramfsWrite call.bytes call.offset memory =
      match inode.reserve call.finish memory with
      | none => some (-1, call.offset, inode)
      | some grown => some (call.bytes.length, call.finish, grown.store call) := by
  have finish : wrap 64 (call.offset + call.bytes.length) = call.finish :=
    wrap_of_lt (by simp only [Write.finish] at bound; omega)
  rw [RegularInode.ramfsWrite, finish]
  cases reserved : inode.reserve call.finish memory with
  | none => rfl
  | some grown =>
    obtain ⟨kept, room⟩ := holds.reserve bound reserved
    have larger : max grown.iSize call.finish =
        if grown.iSize < call.finish then call.finish else grown.iSize := by split <;> omega
    simp only [kept.copyIn room, Option.map_some, RegularInode.store, larger]

theorem getD_kept (written : lastWritten writes position = some byte) :
    inode.data.getD .zero position = byte := by
  cases held : inode.data with
  | none =>
    have early := lt_furthest written
    have := holds.allocated held
    have := holds.within
    have := holds.size
    omega
  | some data => exact holds.kept data held position byte written

theorem ramfsRead {count : Nat} (bound : offset + count < 2 ^ 64 - 4096) :
    inode.ramfsRead count offset = some (((min count (inode.iSize - offset) : Nat) : Int),
      offset + min count (inode.iSize - offset),
      (List.range (min count (inode.iSize - offset))).map fun index => inode.data.getD .zero (offset + index)) := by
  rw [RegularInode.ramfsRead]
  by_cases beyond : inode.iSize ≤ offset
  · rw [if_pos beyond, Nat.sub_eq_zero_of_le beyond, Nat.min_zero]
    rfl
  have within := holds.within
  have smaller : (if inode.iSize < wrap 64 (offset + count) then inode.iSize - offset else count) =
      min count (inode.iSize - offset) := by
    rw [wrap_of_lt (by omega)]
    split <;> omega
  have reached : wrap 64 (offset + min count (inode.iSize - offset)) =
      offset + min count (inode.iSize - offset) := wrap_of_lt (by omega)
  rw [if_neg beyond]
  simp only [smaller, reached, RegularInode.copyOut]
  cases held : inode.data with
  | none => have := holds.allocated held; omega
  | some data =>
    split
    · next none => rw [none]; rfl
    · exact congrArg (Option.map _) (if_pos (by omega))

end Holds

theorem succeeded_length : succeeded [.write call memory call.bytes.length call.finish] = [call] := by
  simp only [succeeded, filterMap_cons, filterMap_nil]
  rw [if_neg (by omega)]

theorem Holds.step {after : RegularInode} (holds : Holds before writes) (step : DataStep before event after) :
    Holds after (writes ++ succeeded [event]) := by
  cases step with
  | read => simpa only [succeeded, filterMap_cons_none, filterMap_nil, append_nil] using holds
  | @write call memory result offset after bound wrote =>
    rw [holds.ramfsWrite bound] at wrote
    cases reserved : before.reserve call.finish memory with
    | none =>
      simp only [reserved] at wrote
      obtain ⟨rfl, rfl, rfl⟩ := wrote
      simpa [succeeded] using holds
    | some grown =>
      simp only [reserved] at wrote
      obtain ⟨rfl, rfl, rfl⟩ := wrote
      obtain ⟨kept, room⟩ := holds.reserve bound reserved
      exact kept.store room

theorem Holds.run (run : Run DataStep .ramfsGetInode trace inode) : Holds inode (succeeded trace) := by
  induction run with
  | nil => exact .initial
  | snoc earlier last ih =>
    rw [succeeded, filterMap_append]
    exact ih.step last

/-- The size is the furthest end of a write that succeeded; a read in front of the end
returns what is left up to `count`, and at every position the byte written last; a write
that fails changes nothing, and no call copies outside of the buffer. -/
theorem ramfs_data_run (run : Run DataStep .ramfsGetInode trace inode) :
    inode.iSize ≤ inode.capacity ∧ 4096 ∣ inode.capacity ∧
      inode.iSize = furthest (succeeded trace) ∧
      (∀ position byte, lastWritten (succeeded trace) position = some byte → position < inode.iSize) ∧
      (∀ count offset, offset + count < 2 ^ 64 - 4096 → offset < inode.iSize →
        ∃ bytes, inode.ramfsRead count offset =
            some (((min count (inode.iSize - offset) : Nat) : Int),
              offset + min count (inode.iSize - offset), bytes) ∧
          bytes.length = min count (inode.iSize - offset) ∧
          ∀ index byte, index < bytes.length →
            lastWritten (succeeded trace) (offset + index) = some byte → bytes[index]? = some byte) ∧
      (∀ count offset, inode.iSize ≤ offset → inode.ramfsRead count offset = some (0, offset, [])) ∧
      ∀ (call : Write) (memory : Option Block), call.finish < 2 ^ 64 - 4096 →
        inode.ramfsWrite call.bytes call.offset memory = some (-1, call.offset, inode) ∨
          ∃ after, inode.ramfsWrite call.bytes call.offset memory =
            some ((call.bytes.length : Int), call.finish, after) := by
  have holds := Holds.run run
  refine ⟨holds.within, holds.aligned, holds.size, ?_, ?_, fun _ _ beyond => if_pos beyond, ?_⟩
  · intro position byte written
    rw [holds.size]
    exact lt_furthest written
  · intro count offset bound early
    refine ⟨_, holds.ramfsRead bound, by simp, ?_⟩
    intro index byte inside written
    rw [length_map, length_range] at inside
    rw [getElem?_map, getElem?_range inside, Option.map_some, holds.getD_kept written]
  · intro call memory bound
    rw [holds.ramfsWrite bound]
    cases inode.reserve call.finish memory with
    | none => exact .inl rfl
    | some grown => exact .inr ⟨_, rfl⟩

def overlappingWrites : List DataEvent :=
  [.write ⟨0, [1, 2]⟩ (some fun _ => 170) 2 2, .write ⟨1, [3, 4]⟩ none 2 3,
    .write ⟨5000, [5]⟩ none (-1) 5000, .write ⟨5000, [5]⟩ (some fun _ => 170) 1 5001]

theorem ramfs_data_run_overlapping :
    ∃ inode, Run DataStep .ramfsGetInode overlappingWrites inode ∧ inode.iSize = 5001 ∧
      inode.iSize ≤ inode.capacity ∧
      ∃ bytes, inode.ramfsRead 3 0 = some (3, 3, bytes) ∧ bytes[1]? = some 3 := by
  have run : Run DataStep .ramfsGetInode overlappingWrites _ :=
    .snoc (.snoc (.snoc (.snoc .nil (.write (by decide) rfl)) (.write (by decide) rfl))
      (.write (by decide) rfl)) (.write (by decide) rfl)
  obtain ⟨within, _, _, _, reads, _⟩ := ramfs_data_run run
  obtain ⟨bytes, read, length, last⟩ := reads 3 0 (by decide) (by decide)
  exact ⟨_, run, rfl, within, bytes, read, last 1 3 (by rw [length]; decide) (by decide)⟩

end Rucix.Fs.Ramfs
