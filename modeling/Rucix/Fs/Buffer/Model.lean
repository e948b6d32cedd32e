import Rucix.Block.Model

namespace Rucix.Fs

open Rucix.Block Function

/-! The buffer cache of `kernel/fs/buffer.c` over the block layer.

A hash chain is the list of the addresses of its buffers, newest first.  A result
`none` stands for a call that sleeps on a locked buffer.
-/

abbrev maxBufferCache : Int := 1024

structure BufferHead where
  uptodate : Bool
  dirty : Bool
  locked : Bool
  data : Nat
  blocknr : Nat
  size : Nat
  bdev : Nat
  count : Int
deriving DecidableEq

structure BufferCache where
  bhHash : Nat → List Nat
  heads : Nat → Option BufferHead
  bufferCacheCount : Int
  disks : Nat → Option Gendisk
  store : Store

/-- The results of the `kmalloc` calls for a buffer head, its data, a bio and its vector. -/
structure BufferAllocation where
  head : Option Nat
  data : Option Nat
  bio : Bool
  vec : Bool

def hash (bdev block : Nat) : Nat := (bdev ^^^ block) &&& 1023

def BufferHead.isFor (head : BufferHead) (bdev block size : Nat) : Bool :=
  head.bdev = bdev ∧ head.blocknr = block ∧ head.size = size

def freshHead (data bdev block size : Nat) : BufferHead :=
  { uptodate := false, dirty := false, locked := false, data, blocknr := block, size, bdev, count := 1 }

namespace BufferCache

def setHead (cache : BufferCache) (addr : Nat) (head : Option BufferHead) : BufferCache :=
  { cache with heads := update cache.heads addr head }

def search (cache : BufferCache) (bdev block size : Nat) : Option Nat :=
  (cache.bhHash (hash bdev block)).find? fun addr =>
    (cache.heads addr).any fun head => head.isFor bdev block size

def takeReference (cache : BufferCache) (addr : Nat) : BufferCache :=
  cache.setHead addr ((cache.heads addr).map fun head => { head with count := head.count + 1 })

def findGetBlock (cache : BufferCache) (bdev block size : Nat) : Option Nat × BufferCache :=
  match cache.search bdev block size with
  | some addr => (some addr, cache.takeReference addr)
  | none => (none, cache)

/-- The cache with a new buffer, whose data is cleared and which is in no chain yet. -/
def withHead (cache : BufferCache) (addr data bdev block size : Nat) : BufferCache :=
  let cleared := fun place => if data ≤ place ∧ place < data + size then 0 else cache.store.memory place
  { cache.setHead addr (some (freshHead data bdev block size)) with
    bufferCacheCount := cache.bufferCacheCount + 1
    store := { cache.store with memory := cleared } }

def allocBufferHead (cache : BufferCache) (alloc : BufferAllocation) (bdev block size : Nat) :
    Option (Nat × BufferCache) :=
  match alloc.head, alloc.data with
  | some addr, some data => some (addr, cache.withHead addr data bdev block size)
  | _, _ => none

def link (cache : BufferCache) (index addr : Nat) : BufferCache :=
  { cache with bhHash := update cache.bhHash index (addr :: cache.bhHash index) }

/-- A buffer that turns up in the second search is taken instead of the new one. -/
def getblk (cache : BufferCache) (alloc : BufferAllocation) (bdev block size : Nat) :
    Option Nat × BufferCache :=
  match cache.findGetBlock bdev block size with
  | (some addr, cache) => (some addr, cache)
  | (none, cache) =>
    match cache.allocBufferHead alloc bdev block size with
    | none => (none, cache)
    | some (addr, cache) =>
      match cache.search bdev block size with
      | some other => (some other, (cache.takeReference other).setHead addr none)
      | none => (some addr, cache.link (hash bdev block) addr)

def brelse (cache : BufferCache) (addr : Nat) : BufferCache :=
  match cache.heads addr with
  | none => cache
  | some head =>
    let head := { head with count := head.count - 1 }
    if head.count = 0 ∧ head.dirty = false ∧ maxBufferCache < cache.bufferCacheCount then
      let index := hash head.bdev head.blocknr
      { cache.setHead addr none with
        bhHash := update cache.bhHash index ((cache.bhHash index).erase addr)
        bufferCacheCount := cache.bufferCacheCount - 1 }
    else cache.setHead addr (some head)

end BufferCache

/-- The completion callback: success is bit 0 of the flags of the bio. -/
def endBufferIoAsync (bio : Bio) (head : BufferHead) : BufferHead :=
  { head with uptodate := head.uptodate || bio.flags &&& 1 ≠ 0, locked := false }

/-- The bio that `ll_rw_block` makes; its flags are those of the cleared structure. -/
def BufferHead.bio (head : BufferHead) (rw : Nat) : Bio where
  tag := 0
  sector := head.blocknr * (head.size / 512) % 2 ^ 64
  size := head.size
  ioVec := [{ page := head.data, len := head.size, offset := 0 }]
  rw := rw
  flags := 0

namespace BufferCache

/-- `ll_rw_block` for one buffer.  `request` says whether the block layer has memory
for a request. -/
def llRwBlock (cache : BufferCache) (alloc : BufferAllocation) (request : Bool) (rw addr : Nat) :
    Option BufferCache :=
  match cache.heads addr with
  | none => some cache
  | some head =>
    if (rw = read ∧ head.uptodate) ∨ (rw = write ∧ head.dirty = false) then some cache
    else if head.locked then none
    else if alloc.bio = false ∨ alloc.vec = false then some cache
    else
      let bio := head.bio rw
      let (disk, store, ended) := submitBio (cache.disks head.bdev) bio request cache.store
      let head := { head with locked := true }
      some { cache.setHead addr (some (if 0 < ended then endBufferIoAsync bio head else head)) with
        disks := update cache.disks head.bdev disk
        store }

def bread (cache : BufferCache) (alloc : BufferAllocation) (request : Bool) (bdev block size : Nat) :
    Option (Option Nat × BufferCache) :=
  match cache.getblk alloc bdev block size with
  | (none, cache) => some (none, cache)
  | (some addr, cache) =>
    if (cache.heads addr).any (·.uptodate) then some (some addr, cache)
    else
      match cache.llRwBlock alloc request read addr with
      | none => none
      | some cache =>
        match cache.heads addr with
        | none => some (none, cache)
        | some head =>
          if head.locked then none
          else if head.uptodate then some (some addr, cache)
          else some (none, cache.brelse addr)

end BufferCache

/-- The disk of `create_ramdisk`.  `elevator` is what `elevator_init` left. -/
def createRamdisk (size : Nat) (elevator : Option Elevator) : Gendisk where
  queue := some { elevator, queue := [], makeRequestFn := some .ramdisk }
  capacity := size / 512

end Rucix.Fs
