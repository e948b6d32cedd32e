import Rucix.Fs.Ramfs.Storage

namespace Rucix.Fs.Ramfs

open Rucix.Data List

/-! The copies of `ramfs_read` and `ramfs_write` for every `int` that
`vfs_read` and `vfs_write` pass as count, negative ones included.
-/

/-- An `int` or a sum with one, converted to `uint64_t` or `size_t`. -/
def unsigned (value : Int) : Nat := (value % 2 ^ 64).toNat

/-- A `memcpy` of `length` bytes from or to `offset` of a buffer of `capacity` bytes. -/
structure Copy where
  offset : Nat
  length : Nat
  capacity : Nat
deriving DecidableEq

def Copy.Inside (copy : Copy) : Prop := ∀ index, index < copy.length → copy.offset + index < copy.capacity

theorem Copy.inside_iff {copy : Copy} : copy.Inside ↔ copy.length = 0 ∨ copy.offset + copy.length ≤ copy.capacity := by
  constructor
  · intro inside
    by_cases empty : copy.length = 0
    · exact .inl empty
    · have last := inside (copy.length - 1) (by omega)
      exact .inr (by omega)
  · intro fits index within
    omega

namespace RegularInode

/-- The copies of `ramfs_read`; the smaller count is stored into an `int`. -/
def readCopies (inode : RegularInode) (count : Int) (offset : Nat) : List Copy :=
  if inode.iSize ≤ offset then []
  else
    let count := if inode.iSize < unsigned (offset + count)
      then Int.bmod (inode.iSize - offset : Nat) (2 ^ 32) else count
    [⟨offset, unsigned count, inode.capacity⟩]

/-- The `new_cap` of `ramfs_write`. -/
def newCap (count : Int) (offset : Nat) : Nat := wrap 64 (unsigned (offset + count) + 4095) &&& (2 ^ 64 - 4096)

/-- The copies of `ramfs_write`; `granted` is whether `kmalloc` finds the memory
for a larger buffer, into which the old one is copied. -/
def writeCopies (inode : RegularInode) (count : Int) (offset : Nat) (granted : Bool) : List Copy :=
  if inode.capacity < unsigned (offset + count) then
    if granted then
      (if inode.data.isSome then [⟨0, inode.iSize, inode.capacity⟩, ⟨0, inode.iSize, newCap count offset⟩] else []) ++
        [⟨offset, unsigned count, newCap count offset⟩]
    else []
  else [⟨offset, unsigned count, inode.capacity⟩]

/-- Nothing is left to read; or `offset + count`, with `count` as a `size_t`, does not wrap
around, and neither does the number of bytes left, where that is copied, become negative as
an `int`.  The last case needs a buffer of more than 2^64 - 2^31 bytes. -/
def ReadFits (inode : RegularInode) (count : Int) (offset : Nat) : Prop :=
  inode.iSize ≤ offset ∨ offset + unsigned count < 2 ^ 64 ∧
    (offset + unsigned count ≤ inode.iSize ∨ (inode.iSize - offset) % 2 ^ 32 < 2 ^ 31 ∨
      offset + (2 ^ 64 - 2 ^ 32 + (inode.iSize - offset) % 2 ^ 32) ≤ inode.capacity)

/-- There is no memory for a larger buffer; or `offset + count`, with `count` as a `size_t`,
can be rounded up; or nothing is to be copied. -/
def WriteFits (inode : RegularInode) (count : Int) (offset : Nat) (granted : Bool) : Prop :=
  granted = false ∧ inode.capacity < unsigned (offset + count) ∨ offset + unsigned count ≤ 2 ^ 64 - 4096 ∨
    count = 0 ∧ inode.iSize = 0

end RegularInode

theorem newCap_eq (count : Int) (offset : Nat) :
    RegularInode.newCap count offset = (unsigned (offset + count) + 4095) % 2 ^ 64 / 4096 * 4096 := by
  have mask := land_block_mask (wrap 64 (unsigned (offset + count) + 4095)) 12 52
  have block : (2 ^ 52 - 1) <<< 12 = 2 ^ 64 - 4096 := by decide
  rw [RegularInode.newCap, ← block, mask, wrap]
  omega

/-- A length above 2^31 - 1 is negative as an `int`. -/
theorem unsigned_bmod (length : Nat) : unsigned (Int.bmod length (2 ^ 32)) =
    if length % 2 ^ 32 < 2 ^ 31 then length % 2 ^ 32 else 2 ^ 64 - 2 ^ 32 + length % 2 ^ 32 := by
  rw [unsigned, Int.bmod_def]
  split <;> split <;> omega

section Bounds

variable {inode : RegularInode} {count : Int} {offset : Nat} (least : -2 ^ 31 ≤ count) (most : count < 2 ^ 31)
  (position : offset < 2 ^ 64) (within : inode.iSize ≤ inode.capacity) (small : inode.capacity ≤ 2 ^ 64 - 4096)
include least most position within small

theorem readCopies_inside_iff :
    (∀ copy ∈ inode.readCopies count offset, copy.Inside) ↔ inode.ReadFits count offset := by
  unfold RegularInode.readCopies RegularInode.ReadFits
  split
  · simp [*]
  · rw [forall_mem_singleton, Copy.inside_iff, apply_ite unsigned, unsigned_bmod]
    unfold unsigned
    split_ifs <;> simp only <;> omega

theorem writeCopies_inside_iff (granted : Bool) (empty : inode.data = none → inode.iSize = 0) :
    (∀ copy ∈ inode.writeCopies count offset granted, copy.Inside) ↔ inode.WriteFits count offset granted := by
  unfold RegularInode.writeCopies RegularInode.WriteFits
  split
  · cases granted with
    | false => simp [*]
    | true =>
      have kept : (∀ copy ∈ if inode.data.isSome then [Copy.mk 0 inode.iSize inode.capacity,
          ⟨0, inode.iSize, RegularInode.newCap count offset⟩] else [], copy.Inside) ↔
          inode.iSize ≤ RegularInode.newCap count offset := by
        cases held : inode.data with
        | none => simp [empty held]
        | some data =>
          simp only [Option.isSome_some, if_true, forall_mem_cons, Copy.inside_iff]
          simp
          omega
      rw [if_pos rfl, forall_mem_append, forall_mem_singleton, Copy.inside_iff, kept, newCap_eq]
      unfold unsigned at *
      simp only [Bool.true_eq_false, false_and, false_or]
      omega
  · rw [forall_mem_singleton, Copy.inside_iff]
    unfold unsigned at *
    simp only
    omega

end Bounds

/-- The copies of a call stay inside the buffer exactly if it fits. -/
theorem ramfs_copies_inside {trace : List DataEvent} {count : Int} {offset : Nat}
    (run : Run DataStep .ramfsGetInode trace inode) (least : -2 ^ 31 ≤ count) (most : count < 2 ^ 31)
    (position : offset < 2 ^ 64) :
    ((∀ copy ∈ inode.readCopies count offset, copy.Inside) ↔ inode.ReadFits count offset) ∧
      ∀ granted, (∀ copy ∈ inode.writeCopies count offset granted, copy.Inside) ↔
        inode.WriteFits count offset granted := by
  have holds := Holds.run run
  have within := holds.within
  refine ⟨readCopies_inside_iff least most position within holds.bounded, fun granted => ?_⟩
  exact writeCopies_inside_iff least most position within holds.bounded granted fun missing => by
    have none := holds.allocated missing
    omega

/-- Seven bytes at offset 3 of a file of five bytes, and -4 bytes: the end is below 0, so
that the read is clipped in the same way. -/
theorem ramfs_copies_inside_five : ∃ inode, Run DataStep .ramfsGetInode
      [.write ⟨0, [1, 2, 3, 4, 5]⟩ (some .zero) 5 5] inode ∧ (∀ copy ∈ inode.readCopies 7 3, copy.Inside) ∧
      ∀ copy ∈ inode.readCopies (-4) 3, copy.Inside := by
  have run : Run DataStep .ramfsGetInode [.write ⟨0, [1, 2, 3, 4, 5]⟩ (some .zero) 5 5] _ :=
    .snoc .nil (.write (by decide) rfl)
  refine ⟨_, run, (ramfs_copies_inside run ?_ ?_ ?_).1.mpr (.inr ?_),
    (ramfs_copies_inside run ?_ ?_ ?_).1.mpr (.inr ?_)⟩
  all_goals decide

/-- `vfs_read` with count -1 at offset 3 of a file of five bytes, and
`vfs_write` with it, copy 2^64 - 1 bytes. -/
theorem negative_count_copies : ∃ inode, Run DataStep .ramfsGetInode
      [.write ⟨0, [1, 2, 3, 4, 5]⟩ (some .zero) 5 5] inode ∧
    inode.readCopies (-1) 3 = [⟨3, 2 ^ 64 - 1, 4096⟩] ∧
    inode.writeCopies (-1) 3 true = [⟨3, 2 ^ 64 - 1, 4096⟩] ∧ ¬(Copy.mk 3 (2 ^ 64 - 1) 4096).Inside :=
  ⟨_, .snoc .nil (.write (by decide) rfl), by decide, by decide,
    fun inside => absurd (inside 4096 (by decide)) (by decide)⟩

end Rucix.Fs.Ramfs
