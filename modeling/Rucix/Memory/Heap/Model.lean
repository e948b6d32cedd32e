import Rucix.Data.Run
import Rucix.Data.Word

namespace Rucix.Memory

open Rucix.Data

/-! The kernel heap of `kernel/memory/heap.c`.

Memory is seen as the block header stored at each address; the tiling invariant keeps
the linked headers apart.  Address 0 is the null pointer, and address and size
arithmetic is taken modulo 2^64.
-/

def heapBlockSize : Nat := 40

def heapMagic : Nat := 0x12345678

structure HeapBlock where
  size : Nat
  next : Nat
  prev : Nat
  free : Bool
  magic : Nat
deriving DecidableEq, Repr

structure Heap where
  blocks : Nat → HeapBlock
  freeList : Nat

namespace Heap

def setBlock (heap : Heap) (addr : Nat) (block : HeapBlock) : Heap :=
  { heap with blocks := Function.update heap.blocks addr block }

/-- The list part of `heap_init`, on memory with arbitrary contents. -/
def heapInit (memory : Nat → HeapBlock) (start size : Nat) : Heap where
  blocks := Function.update memory start
    { size := wrapSub 64 size heapBlockSize, next := 0, prev := 0, free := true, magic := heapMagic }
  freeList := start

/-- `if (addr) addr->prev = prev;` -/
def relink (heap : Heap) (addr prev : Nat) : Heap :=
  if addr = 0 then heap else heap.setBlock addr { heap.blocks addr with prev }

/-- Carve a free block of what `curr` does not need. -/
def split (heap : Heap) (curr alignedSize : Nat) : Heap :=
  let block := heap.blocks curr
  let newBlock := wrap 64 (curr + heapBlockSize + alignedSize)
  let heap := heap.setBlock newBlock
    { size := wrapSub 64 (wrapSub 64 block.size alignedSize) heapBlockSize
      next := block.next, prev := curr, free := true, magic := heapMagic }
  let heap := heap.relink block.next newBlock
  heap.setBlock curr { heap.blocks curr with size := alignedSize, next := newBlock }

/-- What `kmalloc` does with the block it settles on. -/
def claim (heap : Heap) (curr alignedSize : Nat) : Heap :=
  let heap :=
    if wrap 64 (alignedSize + heapBlockSize + 16) < (heap.blocks curr).size then
      heap.split curr alignedSize
    else heap
  heap.setBlock curr { heap.blocks curr with free := false }

/-- The search loop of `kmalloc`; `none` means `fuel` ran out. -/
def kmallocFrom (heap : Heap) (alignedSize : Nat) : (fuel curr : Nat) → Option (Nat × Heap)
  | 0, _ => none
  | fuel + 1, curr =>
    if curr = 0 then some (0, heap)
    else
      let block := heap.blocks curr
      if block.free ∧ alignedSize ≤ block.size then
        some (wrap 64 (curr + heapBlockSize), heap.claim curr alignedSize)
      else kmallocFrom heap alignedSize fuel block.next

/-- `(size + 7) & ~7` on `size_t`. -/
def alignSize (size : Nat) : Nat := wrap 64 (size + 7) &&& (2 ^ 64 - 8)

def kmalloc (heap : Heap) (fuel size : Nat) : Option (Nat × Heap) :=
  if size = 0 then some (0, heap)
  else heap.kmallocFrom (alignSize size) fuel heap.freeList

/-- Merge block `right` into its left neighbour `left`. -/
def absorb (heap : Heap) (left right : Nat) : Heap :=
  let heap := heap.setBlock left
    { heap.blocks left with
      size := wrap 64 ((heap.blocks left).size + (heapBlockSize + (heap.blocks right).size))
      next := (heap.blocks right).next }
  heap.relink (heap.blocks left).next left

def absorbNext (heap : Heap) (block : Nat) : Heap :=
  let next := (heap.blocks block).next
  if next ≠ 0 ∧ (heap.blocks next).free then heap.absorb block next else heap

def absorbPrev (heap : Heap) (block : Nat) : Heap :=
  let prev := (heap.blocks block).prev
  if prev ≠ 0 ∧ (heap.blocks prev).free then heap.absorb prev block else heap

def kfree (heap : Heap) (ptr : Nat) : Heap :=
  if ptr = 0 then heap
  else
    let block := wrapSub 64 ptr heapBlockSize
    if (heap.blocks block).magic ≠ heapMagic then heap
    else
      let heap := heap.setBlock block { heap.blocks block with free := true }
      (heap.absorbNext block).absorbPrev block

end Heap

/-- The heap with its outstanding allocations, each a pointer and the size
that was asked for. -/
structure HeapClient where
  heap : Heap
  live : List (Nat × Nat)

inductive HeapOp where
  | kmalloc (size : Nat)
  | kfree (ptr : Nat)

/-- One call by clients that free only what they hold; `kfree(NULL)` is
allowed. -/
inductive HeapStep : HeapClient → HeapOp → HeapClient → Prop where
  | kmallocNull {client : HeapClient} {fuel size : Nat} {after : Heap} (bounded : size < 2 ^ 64)
      (returned : client.heap.kmalloc fuel size = some (0, after)) :
      HeapStep client (.kmalloc size) { client with heap := after }
  | kmalloc {client : HeapClient} {fuel size ptr : Nat} {after : Heap} (bounded : size < 2 ^ 64)
      (returned : client.heap.kmalloc fuel size = some (ptr, after)) (success : ptr ≠ 0) :
      HeapStep client (.kmalloc size) { heap := after, live := (ptr, size) :: client.live }
  | kfreeNull {client : HeapClient} :
      HeapStep client (.kfree 0) { client with heap := client.heap.kfree 0 }
  | kfree {client : HeapClient} {ptr size : Nat} {others : List (Nat × Nat)}
      (held : client.live.Perm ((ptr, size) :: others)) :
      HeapStep client (.kfree ptr) { heap := client.heap.kfree ptr, live := others }

end Rucix.Memory
