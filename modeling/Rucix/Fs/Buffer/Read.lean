import Rucix.Fs.Buffer.Model

namespace Rucix.Fs

open Rucix.Block Function

/-! Reading a block that is not cached.

The ramdisk completes the bio, but nobody sets the bit that says so: the buffer is
never marked up to date, and `bread` gives it back.
-/

variable {cache : BufferCache} {alloc : BufferAllocation} {bdev block size addr data : Nat}

def BufferCache.Uncached (cache : BufferCache) (bdev block size : Nat) : Prop :=
  ∀ addr ∈ cache.bhHash (hash bdev block), ∀ head, cache.heads addr = some head →
    head.isFor bdev block size = false

/-- The allocations of a `bread` succeed, with a buffer head that is not in use. -/
structure BufferAllocation.Succeeds (alloc : BufferAllocation) (cache : BufferCache) : Prop where
  head : ∃ addr, alloc.head = some addr ∧ cache.heads addr = none ∧ ∀ index, addr ∉ cache.bhHash index
  data : ∃ data, alloc.data = some data
  bio : alloc.bio = true
  vec : alloc.vec = true

namespace BufferCache.Uncached

variable (uncached : cache.Uncached bdev block size)
include uncached

theorem search :
    cache.search bdev block size = none := by
  apply List.find?_eq_none.mpr
  intro addr member found
  cases stored : cache.heads addr with
  | none => simp [stored] at found
  | some head =>
    rw [stored, Option.any_some, uncached addr member head stored] at found
    cases found

/-- The new buffer is in no chain, so the second search does not find it either. -/
theorem withHead (unlisted : ∀ index, addr ∉ cache.bhHash index) :
    (cache.withHead addr data bdev block size).Uncached bdev block size := by
  intro other member head stored
  have different : other ≠ addr := fun same => unlisted _ (same ▸ member)
  have stored : update cache.heads addr (some (freshHead data bdev block size)) other = some head :=
    stored
  rw [update_of_ne different] at stored
  exact uncached other member head stored

theorem getblk (unlisted : ∀ index, addr ∉ cache.bhHash index) (headGiven : alloc.head = some addr)
    (dataGiven : alloc.data = some data) : cache.getblk alloc bdev block size =
      (some addr, (cache.withHead addr data bdev block size).link (hash bdev block) addr) := by
  have first : cache.findGetBlock bdev block size = (none, cache) := by
    simp only [BufferCache.findGetBlock, uncached.search]
  have allocated : cache.allocBufferHead alloc bdev block size =
      some (addr, cache.withHead addr data bdev block size) := by
    simp only [BufferCache.allocBufferHead, headGiven, dataGiven]
  simp only [BufferCache.getblk, first, allocated, (uncached.withHead unlisted).search]

end BufferCache.Uncached

/-- Nobody sets the flags of a bio that `ll_rw_block` made, so its completion only
unlocks the buffer. -/
theorem endBufferIoAsync_bio (owner : BufferHead) :
    endBufferIoAsync (owner.bio rw) head = { head with locked := false } := by
  simp [endBufferIoAsync, BufferHead.bio]

theorem BufferCache.llRwBlock_ramdisk (request : Bool)
    (stored : cache.heads addr = some (freshHead data bdev block size))
    (disk : cache.disks bdev = some (createRamdisk bytes elevator)) (bioGiven : alloc.bio = true)
    (vecGiven : alloc.vec = true) : ∃ after, cache.llRwBlock alloc request read addr = some after ∧
      after.heads addr = some (freshHead data bdev block size) := by
  obtain ⟨store, served⟩ : ∃ store, submitBio (cache.disks bdev) ((freshHead data bdev block size).bio read)
      request cache.store = (some (createRamdisk bytes elevator), store, 1) := by
    rw [disk]
    exact ⟨_, rfl⟩
  have owner : (freshHead data bdev block size).bdev = bdev := rfl
  have step : cache.llRwBlock alloc request read addr = some
      { cache.setHead addr (some (freshHead data bdev block size)) with
        disks := update cache.disks bdev (some (createRamdisk bytes elevator)), store } := by
    simp only [BufferCache.llRwBlock, stored, owner, served, bioGiven, vecGiven,
      endBufferIoAsync_bio]
    rfl
  exact ⟨_, step, update_self ..⟩

/-- Whatever the ramdisk, its contents and the block, `bread` of a block that is
not cached returns null. -/
theorem bread_uncached (request : Bool) (disk : cache.disks bdev = some (createRamdisk bytes elevator))
    (uncached : cache.Uncached bdev block size) (succeeds : alloc.Succeeds cache) :
    ∃ after, cache.bread alloc request bdev block size = some (none, after) := by
  obtain ⟨addr, headGiven, -, unlisted⟩ := succeeds.head
  obtain ⟨data, dataGiven⟩ := succeeds.data
  have got := uncached.getblk unlisted headGiven dataGiven
  have fresh : ((cache.withHead addr data bdev block size).link (hash bdev block) addr).heads addr =
      some (freshHead data bdev block size) := update_self ..
  obtain ⟨after, served, held⟩ := BufferCache.llRwBlock_ramdisk request fresh disk succeeds.bio succeeds.vec
  refine ⟨after.brelse addr, ?_⟩
  simp only [BufferCache.bread, got, fresh, served, held]
  rfl

/-- `bread` returns a buffer with the bytes of a block inside the disk, and null for
a block outside. -/
def DeliversBlock (cache : BufferCache) (alloc : BufferAllocation) (request : Bool)
    (bdev block bytes : Nat) : Prop :=
  ∃ result after, cache.bread alloc request bdev block 512 = some (result, after) ∧
    (block * 512 + 512 ≤ bytes → ∃ addr head, result = some addr ∧ after.heads addr = some head ∧
      ∀ k < 512, after.store.memory (head.data + k) = cache.store.disk (block * 512 + k)) ∧
    (bytes < block * 512 + 512 → result = none)

/-- A read of a block that is not cached does what it should only for the blocks
outside the disk. -/
theorem bread_delivers_iff_outside {elevator : Option Elevator} {bytes : Nat}
    (disk : cache.disks bdev = some (createRamdisk bytes elevator)) (uncached : cache.Uncached bdev block 512)
    (succeeds : alloc.Succeeds cache) (request : Bool) :
    DeliversBlock cache alloc request bdev block bytes ↔ bytes < block * 512 + 512 := by
  obtain ⟨after, returned⟩ := bread_uncached request disk uncached succeeds
  constructor
  · intro ⟨result, final, called, inside, _⟩
    by_contra within
    obtain ⟨addr, head, found, -⟩ := inside (by omega)
    cases returned.symm.trans called
    cases found
  · intro outside
    exact ⟨none, after, returned, fun inside => absurd inside (by omega), fun _ => rfl⟩

def twoBlocks : BufferCache where
  bhHash := fun _ => []
  heads := fun _ => none
  bufferCacheCount := 0
  disks := update (fun _ => none) 64 (some (createRamdisk 1024 (some .noop)))
  store := ⟨fun place => UInt8.ofNat place, fun _ => 0⟩

def freshBuffer : BufferAllocation := ⟨some 7, some 4096, true, true⟩

theorem twoBlocks_succeeds : freshBuffer.Succeeds twoBlocks :=
  ⟨⟨7, rfl, rfl, fun _ => nofun⟩, ⟨4096, rfl⟩, rfl, rfl⟩

theorem bread_delivers_iff_outside_third : DeliversBlock twoBlocks freshBuffer true 64 2 1024 := by
  have disk : twoBlocks.disks 64 = some (createRamdisk 1024 (some .noop)) := rfl
  have uncached : twoBlocks.Uncached 64 2 512 := fun _ member => nomatch member
  exact (bread_delivers_iff_outside disk uncached twoBlocks_succeeds true).mpr (by decide)

/-- The first block of the disk cannot be read. -/
theorem bread_first_block_fails :
    twoBlocks.disks 64 = some (createRamdisk 1024 (some .noop)) ∧
    twoBlocks.Uncached 64 0 512 ∧ freshBuffer.Succeeds twoBlocks ∧ 0 * 512 + 512 ≤ 1024 ∧
    ¬DeliversBlock twoBlocks freshBuffer true 64 0 1024 := by
  have disk : twoBlocks.disks 64 = some (createRamdisk 1024 (some .noop)) := rfl
  have uncached : twoBlocks.Uncached 64 0 512 := fun _ member => nomatch member
  refine ⟨disk, uncached, twoBlocks_succeeds, by decide, fun ⟨result, after, called, inside, _⟩ => ?_⟩
  obtain ⟨final, returned⟩ := bread_uncached true disk uncached twoBlocks_succeeds
  obtain ⟨addr, head, found, -⟩ := inside (by decide)
  cases returned.symm.trans called
  cases found

end Rucix.Fs
