import Rucix.Fs.Buffer.Read

namespace Rucix.Fs

open Rucix.Block Function

/-! `sync_dirty_buffer` of `kernel/fs/buffer.c`. -/

variable {cache after : BufferCache} {alloc : BufferAllocation} {head : BufferHead} {addr : Nat} {gendisk : Gendisk}

/-- `none` stands for a call that sleeps until the buffer is unlocked. -/
def BufferCache.syncDirtyBuffer (cache : BufferCache) (alloc : BufferAllocation) (request : Bool) (addr : Nat) :
    Option (Int × BufferCache) :=
  if (cache.heads addr).any (·.dirty) then
    match cache.llRwBlock alloc request write addr with
    | none => none
    | some cache =>
      if (cache.heads addr).any (·.locked) then none
      else some (0, cache.setHead addr ((cache.heads addr).map fun head => { head with dirty := false }))
  else some (0, cache)

def BufferHead.position (head : BufferHead) : Nat := head.blocknr * (head.size / 512) * 512

/-- The bio goes to a ramdisk that has the block, or is queued.  A queued bio is never
ended, so the call does not return. -/
def BufferHead.Served (head : BufferHead) (request : Bool) (gendisk : Gendisk) (queue : RequestQueue) : Prop :=
  match queue.makeRequestFn with
  | none => False
  | some .ramdisk => head.position + head.size ≤ gendisk.capacity * 512
  | some .elevator => request = true ∨ (elvMergeBio queue (head.bio write)).isSome

section

variable {request : Bool} (stored : cache.heads addr = some head) (dirty : head.dirty = true)
include stored dirty

end

end Rucix.Fs
