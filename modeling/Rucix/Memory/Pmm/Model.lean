import Rucix.Data.Bitmap
import Rucix.Data.Run
import Rucix.Data.Word

namespace Rucix.Memory

open Rucix.Data

/-! The physical frame allocator of `kernel/memory/pmm.c`.

The `uint64_t` fields are natural numbers reduced modulo 2^64 wherever the source adds
to or subtracts from them.
-/

def pageSize : Nat := 4096

structure Pmm where
  bitmap : Bitmap
  totalPages : Nat
  freeMemory : Nat
  lastFreeIndex : Nat

namespace Pmm

def pmmSetBit (pmm : Pmm) (bit : Nat) : Pmm := { pmm with bitmap := pmm.bitmap.set bit }

def pmmClearBit (pmm : Pmm) (bit : Nat) : Pmm := { pmm with bitmap := pmm.bitmap.clear bit }

def pmmTestBit (pmm : Pmm) (bit : Nat) : Bool := pmm.bitmap.test bit

/-- Search from the hint to the end, then from frame 0 up to the hint; `none`
is the source's -1. -/
def pmmFindFirstFree (pmm : Pmm) : Option Nat × Pmm :=
  match pmm.bitmap.firstClear pmm.lastFreeIndex (pmm.totalPages - pmm.lastFreeIndex) with
  | some bit => (some bit, { pmm with lastFreeIndex := bit })
  | none =>
    match pmm.bitmap.firstClear 0 pmm.lastFreeIndex with
    | some bit => (some bit, { pmm with lastFreeIndex := bit })
    | none => (none, pmm)

/-- `fuel` bounds the self-calls made for frame 0; `none` means it ran out. -/
def pmmAllocPage : (fuel : Nat) → Pmm → Option (Nat × Pmm)
  | 0, _ => none
  | fuel + 1, pmm =>
    match pmm.pmmFindFirstFree with
    | (none, pmm) => some (0, pmm)
    | (some 0, pmm) => pmmAllocPage fuel (pmm.pmmSetBit 0)
    | (some (bit + 1), pmm) =>
      some (wrap 64 ((bit + 1) * pageSize),
        { pmm.pmmSetBit (bit + 1) with freeMemory := wrapSub 64 pmm.freeMemory pageSize })

/-- The candidate loop of `pmm_alloc_pages`.  Every pass moves `index` up, so
`last + 1` passes reach the end of the loop. -/
def allocPagesFrom (pmm : Pmm) (count last : Nat) : (passes index : Nat) → Nat × Pmm
  | 0, _ => (0, pmm)
  | passes + 1, index =>
    if index ≤ last then
      match pmm.bitmap.firstSet index 0 count with
      | some offset => allocPagesFrom pmm count last passes (index + offset + 1)
      | none =>
        (wrap 64 (index * pageSize),
          { pmm with
            bitmap := pmm.bitmap.setRange index count
            freeMemory := wrapSub 64 pmm.freeMemory (wrap 64 (count * pageSize)) })
    else (0, pmm)

def pmmAllocPages (pmm : Pmm) (count : Nat) : Nat × Pmm :=
  if count = 0 then (0, pmm)
  else
    let last := wrapSub 64 pmm.totalPages count
    pmm.allocPagesFrom count last (last + 1) 0

def pmmFreePage (pmm : Pmm) (addr : Nat) : Pmm :=
  let bit := addr / pageSize
  if bit < pmm.totalPages then
    { pmm.pmmClearBit bit with
      freeMemory := wrap 64 (pmm.freeMemory + pageSize)
      lastFreeIndex := if bit < pmm.lastFreeIndex then bit else pmm.lastFreeIndex }
  else pmm

def pmmFreePages (pmm : Pmm) (addr count : Nat) : Pmm :=
  let start := addr / pageSize
  { pmm with
    bitmap := pmm.bitmap.clearRange pmm.totalPages start count
    freeMemory := wrap 64 (pmm.freeMemory + wrap 64 (count * pageSize))
    lastFreeIndex := if start < pmm.lastFreeIndex then start else pmm.lastFreeIndex }

end Pmm

structure PmmClient where
  pmm : Pmm
  held : Finset Nat

inductive PmmOp where
  | allocPage
  | allocPages (count : Nat)
  | freePage (addr : Nat)
  | freePages (addr count : Nat)

def framesOf (addr count : Nat) : Finset Nat :=
  Finset.Ico (addr / pageSize) (addr / pageSize + count)

/-- One call.  Callers free only frames they hold, so no frame is freed twice;
a range may be given back in pieces. -/
inductive PmmStep : PmmClient → PmmOp → PmmClient → Prop where
  | allocPage {client : PmmClient} {fuel addr : Nat} {after : Pmm}
      (returned : client.pmm.pmmAllocPage fuel = some (addr, after)) :
      PmmStep client .allocPage
        { pmm := after, held := if addr = 0 then client.held else client.held ∪ framesOf addr 1 }
  | allocPages {client : PmmClient} {count addr : Nat} {after : Pmm}
      (positive : 1 ≤ count) (bounded : count ≤ client.pmm.totalPages)
      (returned : client.pmm.pmmAllocPages count = (addr, after)) :
      PmmStep client (.allocPages count)
        { pmm := after
          held := if addr = 0 then client.held else client.held ∪ framesOf addr count }
  | freePage {client : PmmClient} {addr : Nat} (owned : framesOf addr 1 ⊆ client.held) :
      PmmStep client (.freePage addr)
        { pmm := client.pmm.pmmFreePage addr, held := client.held \ framesOf addr 1 }
  | freePages {client : PmmClient} {addr count : Nat}
      (owned : framesOf addr count ⊆ client.held) :
      PmmStep client (.freePages addr count)
        { pmm := client.pmm.pmmFreePages addr count, held := client.held \ framesOf addr count }

end Rucix.Memory
