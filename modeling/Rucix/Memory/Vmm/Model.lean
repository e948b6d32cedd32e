import Rucix.Data.Run
import Rucix.Data.Tables
import Rucix.Data.Word
import Rucix.Memory.Pmm.Model

namespace Rucix.Memory

open Rucix.Data

/-! The four-level page tables of `kernel/memory/vmm.c`.

Physical memory is the 64-bit word at each address; `phys_to_virt` is the
identity.  The TLB is not modelled, so `invlpg` has no counterpart.
-/

def ptePresent : Nat := 1

def pteWritable : Nat := 2

def pteUser : Nat := 4

/-- The bits of an entry that hold a frame address. -/
def pteFrameMask : Nat := 0xFFFFFFFFFF000

def pml4Index (virt : Nat) : Nat := (virt >>> 39) &&& 0x1FF

def pdpIndex (virt : Nat) : Nat := (virt >>> 30) &&& 0x1FF

def pdIndex (virt : Nat) : Nat := (virt >>> 21) &&& 0x1FF

def ptIndex (virt : Nat) : Nat := (virt >>> 12) &&& 0x1FF

/-- `frames` lists what `pmm_alloc_page` returns, call by call. -/
structure Vmm where
  words : Nat → Nat
  currentPml4 : Nat
  frames : Nat → Nat

namespace Vmm

def read (vmm : Vmm) (table index : Nat) : Nat := vmm.words (table + 8 * index)

def write (vmm : Vmm) (table index value : Nat) : Vmm :=
  { vmm with words := Function.update vmm.words (table + 8 * index) value }

def present (entry : Nat) : Bool := (entry &&& ptePresent) ≠ 0

/-- `memset(table, 0, PAGE_SIZE)` -/
def clearPage (vmm : Vmm) (table : Nat) : Vmm :=
  { vmm with
    words := fun addr => if table ≤ addr ∧ addr < table + pageSize then 0 else vmm.words addr }

/-- Allocate, clear and link a table below entry `index` of `table`. -/
def linkTable (vmm : Vmm) (table index : Nat) : Vmm :=
  let frame := vmm.frames 0
  let vmm := { vmm with frames := fun call => vmm.frames (call + 1) }
  (vmm.clearPage frame).write table index (frame ||| ptePresent ||| pteWritable ||| pteUser)

/-- One level of the walk of `vmm_map_page`: the table below entry `index`,
which is allocated when it is missing. -/
def ensureTable (vmm : Vmm) (table index : Nat) : Vmm × Nat :=
  let vmm := if present (vmm.read table index) then vmm else vmm.linkTable table index
  (vmm, vmm.read table index &&& pteFrameMask)

def vmmMapPage (vmm : Vmm) (virt phys flags : Nat) : Vmm :=
  let (vmm, pdp) := vmm.ensureTable vmm.currentPml4 (pml4Index virt)
  let (vmm, pd) := vmm.ensureTable pdp (pdpIndex virt)
  let (vmm, pt) := vmm.ensureTable pd (pdIndex virt)
  vmm.write pt (ptIndex virt) (phys ||| flags)

def nextTable (vmm : Vmm) (table index : Nat) : Option Nat :=
  if present (vmm.read table index) then some (vmm.read table index &&& pteFrameMask) else none

def pageTable (vmm : Vmm) (virt : Nat) : Option Nat := do
  let pdp ← vmm.nextTable vmm.currentPml4 (pml4Index virt)
  let pd ← vmm.nextTable pdp (pdpIndex virt)
  vmm.nextTable pd (pdIndex virt)

def vmmUnmapPage (vmm : Vmm) (virt : Nat) : Vmm :=
  match vmm.pageTable virt with
  | none => vmm
  | some pt => vmm.write pt (ptIndex virt) 0

def vmmGetPhys (vmm : Vmm) (virt : Nat) : Nat :=
  match vmm.pageTable virt with
  | none => 0
  | some pt =>
    if present (vmm.read pt (ptIndex virt)) then
      (vmm.read pt (ptIndex virt) &&& pteFrameMask) ||| (virt &&& 0xFFF)
    else 0

def vmmGetPte (vmm : Vmm) (virt : Nat) : Nat :=
  match vmm.pageTable virt with
  | none => 0
  | some pt => vmm.read pt (ptIndex virt)

end Vmm

end Rucix.Memory
