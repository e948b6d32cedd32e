import Rucix.Data.BackLinks
import Rucix.Fs.Buffer.Model

namespace Rucix.Fs

open Rucix.Data Function

/-! The hash table of the buffer cache with its pointers.

A buffer has a pointer to the next one of its chain and a pointer to the link
that points to it, which is a bucket or the `b_next_hash` of another buffer.
-/

structure HashedHead extends BufferHead where
  nextHash : Option Nat
  pprevHash : Option (Link Nat Nat)
deriving DecidableEq

structure BufferHash where
  bhHash : Nat → Option Nat
  heads : Nat → Option HashedHead
  bufferCacheCount : Int

namespace BufferHash

def setHead (table : BufferHash) (addr : Nat) (head : Option HashedHead) : BufferHash :=
  { table with heads := update table.heads addr head }

def nextHash (table : BufferHash) (addr : Nat) : Option Nat := (table.heads addr).bind HashedHead.nextHash

def pprevHash (table : BufferHash) (addr : Nat) : Option (Link Nat Nat) :=
  (table.heads addr).bind HashedHead.pprevHash

def modify (table : BufferHash) (addr : Nat) (assign : HashedHead → HashedHead) : BufferHash :=
  table.setHead addr ((table.heads addr).map assign)

def setNextHash (table : BufferHash) (addr : Nat) (next : Option Nat) : BufferHash :=
  table.modify addr fun head => { head with nextHash := next }

def setPprevHash (table : BufferHash) (addr : Nat) (link : Option (Link Nat Nat)) : BufferHash :=
  table.modify addr fun head => { head with pprevHash := link }

/-- `if (bh) bh->b_pprev_hash = link;` -/
def setPprevAt (table : BufferHash) (bh : Option Nat) (link : Option (Link Nat Nat)) : BufferHash :=
  bh.elim table fun addr => table.setPprevHash addr link

/-- The search of a chain.  It yields `none` when it runs out of fuel or meets a
pointer to a buffer that has been freed. -/
def searchChain (table : BufferHash) (bdev block size : Nat) :
    (fuel : Nat) → (bh : Option Nat) → Option (Option Nat)
  | 0, _ => none
  | _ + 1, none => some none
  | fuel + 1, some addr =>
    match table.heads addr with
    | none => none
    | some head =>
      if head.isFor bdev block size then some (some addr)
      else table.searchChain bdev block size fuel head.nextHash

def takeReference (table : BufferHash) (addr : Nat) : BufferHash :=
  table.modify addr fun head => { head with count := head.count + 1 }

def findGetBlock (fuel : Nat) (table : BufferHash) (bdev block size : Nat) :
    Option (Option Nat × BufferHash) :=
  match table.searchChain bdev block size fuel (table.bhHash (hash bdev block)) with
  | none => none
  | some (some addr) => some (some addr, table.takeReference addr)
  | some none => some (none, table)

def allocBufferHead (table : BufferHash) (alloc : BufferAllocation) (bdev block size : Nat) :
    Option (Nat × BufferHash) :=
  match alloc.head, alloc.data with
  | some addr, some data =>
    let head := { freshHead data bdev block size with nextHash := none, pprevHash := none }
    some (addr, { table.setHead addr (some head) with bufferCacheCount := table.bufferCacheCount + 1 })
  | _, _ => none

def link (table : BufferHash) (index addr : Nat) : BufferHash :=
  let first := table.bhHash index
  let table := table.setNextHash addr first
  let table := table.setPprevAt first (some (.next addr))
  let table := { table with bhHash := update table.bhHash index (some addr) }
  table.setPprevHash addr (some (.head index))

/-- The second part of `getblk`, with a new buffer that is freed when another
one turns up. -/
def addBuffer (fuel : Nat) (table : BufferHash) (addr bdev block size : Nat) :
    Option (Nat × BufferHash) :=
  match table.searchChain bdev block size fuel (table.bhHash (hash bdev block)) with
  | none => none
  | some (some other) => some (other, (table.takeReference other).setHead addr none)
  | some none => some (addr, table.link (hash bdev block) addr)

/-- `*link = value` -/
def writeLink (table : BufferHash) (value : Option Nat) : Link Nat Nat → BufferHash
  | .head index => { table with bhHash := update table.bhHash index value }
  | .next addr => table.setNextHash addr value

def unlink (table : BufferHash) (head : HashedHead) : BufferHash :=
  let table := table.setPprevAt head.nextHash head.pprevHash
  head.pprevHash.elim table (table.writeLink head.nextHash)

def brelse (table : BufferHash) (addr : Nat) : BufferHash :=
  match table.heads addr with
  | none => table
  | some head =>
    let head := { head with count := head.count - 1 }
    let table := table.setHead addr (some head)
    if head.count = 0 ∧ head.dirty = false ∧ maxBufferCache < table.bufferCacheCount then
      { (table.unlink head).setHead addr none with bufferCacheCount := table.bufferCacheCount - 1 }
    else table

def setDirty (table : BufferHash) (addr : Nat) (dirty : Bool) : BufferHash :=
  table.modify addr fun head => { head with dirty }

end BufferHash

end Rucix.Fs
