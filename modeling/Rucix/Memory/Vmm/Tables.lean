import Rucix.Data.Radix
import Rucix.Memory.Vmm.Model

namespace Rucix.Memory

open Rucix.Data

/-! The page tables as a tree of frames.

A frame is a page number of physical memory, and its words are indexed by
`Fin 512`.  The byte addresses of the code are recovered by `frameBase`.
-/

def frameBase (frame : Nat) : Nat := frame * pageSize

/-- The frame that an entry of the upper three levels points to. -/
def childFrame (entry : Nat) : Option Nat :=
  if Vmm.present entry then some (entry / 2 ^ 12 % 2 ^ 40) else none

theorem land_frameMask : entry &&& pteFrameMask = frameBase (entry / 2 ^ 12 % 2 ^ 40) := by
  have mask : pteFrameMask = (2 ^ 40 - 1) <<< 12 := by decide
  rw [mask, land_block_mask]
  rfl

theorem present_eq : Vmm.present entry = decide (entry % 2 = 1) := by
  rw [Vmm.present, ptePresent]
  rcases Nat.mod_two_eq_zero_or_one entry with even | odd
  · simp [even]
  · simp [odd]

theorem index_eq : (virt >>> shift) &&& 0x1FF = virt / 2 ^ shift % 512 := by
  have mask : 0x1FF = (2 ^ 9 - 1) <<< 0 := by decide
  rw [mask, land_block_mask, Nat.shiftRight_eq_div_pow]
  simp

def slot (shift virt : Nat) : Fin 512 := ⟨virt / 2 ^ shift % 512, Nat.mod_lt _ (by decide)⟩

def tablePath (virt : Nat) : List (Fin 512) := [slot 39 virt, slot 30 virt, slot 21 virt]

def pageNumber (virt : Nat) : Nat := virt / 2 ^ 12 % 2 ^ 36

/-- The indices are the digits of the page number to base 512. -/
theorem slot_eq_digit (position virt : Nat) : slot (12 + 9 * position) virt = digit 512 position (virt / 2 ^ 12) := by
  have split : 2 ^ (12 + 9 * position) = 2 ^ 12 * 512 ^ position := by rw [Nat.pow_add, Nat.pow_mul]
  apply Fin.ext
  simp only [slot, digit, Fin.val_ofNat, split, Nat.div_div_eq_div_mul]

theorem same_path_iff : (tablePath left = tablePath right ∧ slot 12 left = slot 12 right) ↔
      pageNumber left = pageNumber right := by
  have path : ∀ virt, tablePath virt = [digit 512 3 (virt / 2 ^ 12), digit 512 2 (virt / 2 ^ 12),
      digit 512 1 (virt / 2 ^ 12)] := by
    intro virt
    rw [← slot_eq_digit, ← slot_eq_digit, ← slot_eq_digit]
    rfl
  have last : ∀ virt, slot 12 virt = digit 512 0 (virt / 2 ^ 12) := fun virt => slot_eq_digit 0 virt
  have number : ∀ virt, pageNumber virt = virt / 2 ^ 12 % 512 ^ (0 + 1 + 1 + 1 + 1) := fun _ => rfl
  simp only [path, last, number, mod_pow_succ_eq_iff, Nat.pow_zero, Nat.mod_one, List.cons.injEq, and_true,
    and_assoc]

namespace Vmm

variable {vmm : Vmm}

/-- Physical memory, one frame at a time. -/
def memory (vmm : Vmm) (frame : Nat) (index : Fin 512) : Nat := vmm.read (frameBase frame) index

def root (vmm : Vmm) : Nat := vmm.currentPml4 / pageSize

def walk (vmm : Vmm) (path : List (Fin 512)) : Option Nat :=
  Tables.walk childFrame vmm.memory vmm.root path

def entry (vmm : Vmm) (virt : Nat) : Nat :=
  Tables.entry childFrame vmm.memory vmm.root 0 (tablePath virt) (slot 12 virt)

/-- The page tables form a tree in which no frame serves twice. -/
structure WellFormed (vmm : Vmm) : Prop where
  aligned : vmm.currentPml4 % pageSize = 0
  tree : Tables.TreeShaped childFrame vmm.memory vmm.root 3

def IsTable (vmm : Vmm) (frame : Nat) : Prop :=
  Tables.IsTable childFrame vmm.memory vmm.root 3 frame

theorem word_address_injective {left right : Nat} {first second : Fin 512}
    (same : frameBase left + 8 * first.val = frameBase right + 8 * second.val) : left = right ∧ first = second := by
  simp only [frameBase, pageSize] at same
  omega

theorem WellFormed.root_base (valid : vmm.WellFormed) : vmm.currentPml4 = frameBase vmm.root := by
  have aligned := valid.aligned
  simp only [root, frameBase, pageSize] at *
  omega

theorem nextTable_frame (vmm : Vmm) (index : Fin 512) :
    vmm.nextTable (frameBase frame) index = (childFrame (vmm.memory frame index)).map frameBase := by
  rw [nextTable, childFrame, land_frameMask, apply_ite (Option.map frameBase)]
  rfl

theorem WellFormed.pageTable_eq (valid : vmm.WellFormed) :
    vmm.pageTable virt = (vmm.walk (tablePath virt)).map frameBase := by
  have pml4 : pml4Index virt = slot 39 virt := index_eq
  have pdp : pdpIndex virt = slot 30 virt := index_eq
  have pd : pdIndex virt = slot 21 virt := index_eq
  rw [pageTable, valid.root_base, pml4, pdp, pd, nextTable_frame]
  simp only [walk, tablePath, Tables.walk]
  cases childFrame (vmm.memory vmm.root (slot 39 virt)) with
  | none => rfl
  | some second =>
    simp only [Option.map_some, Option.bind_some, Option.bind_eq_bind, nextTable_frame]
    cases childFrame (vmm.memory second (slot 30 virt)) with
    | none => rfl
    | some third =>
      simp only [Option.map_some, Option.bind_some, nextTable_frame]
      cases childFrame (vmm.memory third (slot 21 virt)) <;> rfl

theorem WellFormed.vmmGetPte_eq (valid : vmm.WellFormed) : vmm.vmmGetPte virt = vmm.entry virt := by
  have pt : ptIndex virt = slot 12 virt := index_eq
  rw [vmmGetPte, valid.pageTable_eq, pt]
  change _ = ((vmm.walk (tablePath virt)).map _).getD 0
  cases vmm.walk (tablePath virt) <;> rfl

theorem WellFormed.vmmGetPhys_eq (valid : vmm.WellFormed) : vmm.vmmGetPhys virt =
      if present (vmm.entry virt) then (vmm.entry virt &&& pteFrameMask) ||| (virt &&& 0xFFF)
      else 0 := by
  have pt : ptIndex virt = slot 12 virt := index_eq
  rw [vmmGetPhys, valid.pageTable_eq, pt]
  change _ = if present (((vmm.walk (tablePath virt)).map _).getD 0) then
    ((((vmm.walk (tablePath virt)).map _).getD 0) &&& pteFrameMask) ||| (virt &&& 0xFFF) else 0
  cases vmm.walk (tablePath virt) with
  | none => simp [present_eq]
  | some table => rfl

theorem memory_write (vmm : Vmm) (index : Fin 512) (value table : Nat) (other : Fin 512) :
    (vmm.write (frameBase frame) index value).memory table other =
      if table = frame ∧ other = index then value else vmm.memory table other := by
  simp only [memory, read, write]
  by_cases here : table = frame ∧ other = index
  · obtain ⟨rfl, rfl⟩ := here
    simp
  · rw [if_neg here]
    apply Function.update_of_ne
    exact fun same => here (word_address_injective same)

theorem memory_clearPage : (vmm.clearPage (frameBase frame)).memory table index =
      if table = frame then 0 else vmm.memory table index := by
  have inside : (frameBase frame ≤ frameBase table + 8 * index ∧
      frameBase table + 8 * index < frameBase frame + pageSize) ↔ table = frame := by
    simp only [frameBase, pageSize]
    omega
  simp only [memory, read, clearPage, inside]

/-- `pmm_alloc_page` answers with a page-aligned physical address that is
neither NULL nor a page table in use; physical addresses have 52 bits. -/
structure FreshFrame (vmm : Vmm) (addr : Nat) : Prop where
  nonzero : addr ≠ 0
  aligned : addr % pageSize = 0
  physical : addr < 2 ^ 52
  unused : ¬vmm.IsTable (addr / pageSize)

theorem tableEntry_frame (aligned : addr % pageSize = 0) (physical : addr < 2 ^ 52) :
    childFrame (addr ||| ptePresent ||| pteWritable ||| pteUser) = some (addr / pageSize) := by
  have flags : addr ||| ptePresent ||| pteWritable ||| pteUser = 2 ^ 12 * (addr / pageSize) + 7 := by
    rw [Nat.two_pow_add_eq_or_of_lt (by decide)]
    have base : 2 ^ 12 * (addr / pageSize) = addr := by
      simp only [pageSize] at *
      omega
    rw [base, Nat.or_assoc, Nat.or_assoc]
    rfl
  have odd : (2 ^ 12 * (addr / pageSize) + 7) % 2 = 1 := by omega
  rw [flags, childFrame, present_eq, if_pos (by simpa using odd)]
  simp only [pageSize] at *
  congr 1
  omega

end Vmm

end Rucix.Memory
