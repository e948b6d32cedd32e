import Rucix.Memory.Vmm.Tables

namespace Rucix.Memory

open Rucix.Data List

namespace Vmm

variable {vmm : Vmm} {frame : Nat}

/-- What allocating the table below an entry relies on. -/
def AllocatesFresh (vmm : Vmm) (table index : Nat) : Prop :=
  present (vmm.read table index) = false → vmm.FreshFrame (vmm.frames 0)

/-- Every `pmm_alloc_page` call that mapping `virt` makes returns a fresh
frame. -/
def MapAllocatesFresh (vmm : Vmm) (virt : Nat) : Prop :=
  let first := vmm.ensureTable vmm.currentPml4 (pml4Index virt)
  let second := first.1.ensureTable first.2 (pdpIndex virt)
  vmm.AllocatesFresh vmm.currentPml4 (pml4Index virt) ∧
    first.1.AllocatesFresh first.2 (pdpIndex virt) ∧
    second.1.AllocatesFresh second.2 (pdIndex virt)

theorem linkTable_links (index : Fin 512) (vacant : present (vmm.memory frame index) = false)
    (allocated : vmm.FreshFrame (vmm.frames 0)) (different : frame ≠ vmm.frames 0 / pageSize) :
    Tables.Links childFrame vmm.memory (vmm.linkTable (frameBase frame) index).memory frame index
      (vmm.frames 0 / pageSize) 0 := by
  have base : vmm.frames 0 = frameBase (vmm.frames 0 / pageSize) := by
    have aligned := allocated.aligned
    simp only [frameBase, pageSize] at *
    omega
  have words : ∀ table slot, (vmm.linkTable (frameBase frame) index).memory table slot =
      if table = frame ∧ slot = index then vmm.frames 0 ||| ptePresent ||| pteWritable ||| pteUser
      else if table = vmm.frames 0 / pageSize then 0 else vmm.memory table slot := by
    intro table slot
    rw [linkTable, memory_write]
    rw [base, memory_clearPage, ← base]
    rfl
  refine ⟨?_, ?_, ?_, ?_⟩
  · rw [childFrame, vacant]
    rfl
  · rw [words, if_pos ⟨rfl, rfl⟩]
    exact tableEntry_frame allocated.aligned allocated.physical
  · intro slot
    rw [words, if_neg (fun here => different here.1.symm), if_pos rfl]
  · intro table slot old elsewhere
    rw [words, if_neg (by rintro ⟨rfl, rfl⟩; simp at elsewhere), if_neg old]

/-- What one level of `vmm_map_page` guarantees: it reaches the table below the
entry, keeps the tables a tree and changes no page's entry. -/
structure Ensured (vmm : Vmm) (path : List (Fin 512)) (frame index : Nat) (after : Vmm)
    (next : Nat) : Prop where
  returned : vmm.ensureTable (frameBase frame) index = (after, frameBase next)
  wellFormed : after.WellFormed
  reached : after.walk path = some next
  entries : ∀ virt, after.entry virt = vmm.entry virt
  tables : ((∀ call, after.frames call = vmm.frames call) ∧
      ∀ table, after.IsTable table → vmm.IsTable table) ∨
    ((∀ call, after.frames call = vmm.frames (call + 1)) ∧
      ∀ table, after.IsTable table → vmm.IsTable table ∨ table = vmm.frames 0 / pageSize)

theorem WellFormed.ensureTable_spec (valid : vmm.WellFormed) (reached : vmm.walk path = some frame)
    (short : path.length < 3) {index : Nat} (slot : Fin 512) (indexed : index = slot)
    (fresh : vmm.AllocatesFresh (frameBase frame) index) :
    ∃ after next, Ensured vmm (path ++ [slot]) frame index after next := by
  subst indexed
  cases existing : present (vmm.read (frameBase frame) slot) with
  | true =>
    have found : childFrame (vmm.memory frame slot) =
        some (vmm.memory frame slot / 2 ^ 12 % 2 ^ 40) := by
      rw [childFrame, memory, existing, if_pos rfl]
    refine ⟨vmm, vmm.memory frame slot / 2 ^ 12 % 2 ^ 40, ?_, valid, ?_, fun _ => rfl,
      .inl ⟨fun _ => rfl, fun _ used => used⟩⟩
    · rw [ensureTable, land_frameMask, existing]
      rfl
    · rw [walk, Tables.walk_snoc reached, found]
  | false =>
    have allocated := fresh existing
    have unused := allocated.unused
    have different : frame ≠ vmm.frames 0 / pageSize := by
      rintro same
      exact unused ⟨path, by omega, same ▸ reached⟩
    have links := linkTable_links slot existing allocated different
    have empty : childFrame 0 = none := by simp [childFrame, present_eq]
    refine ⟨vmm.linkTable (frameBase frame) slot, vmm.frames 0 / pageSize, ?_,
      ⟨valid.aligned, valid.tree.link links empty reached short unused⟩, ?_, ?_, ?_⟩
    · have stored := links.linked
      rw [childFrame] at stored
      split at stored
      · rw [Option.some.injEq] at stored
        rw [ensureTable, land_frameMask, existing]
        exact Prod.ext rfl (congrArg frameBase stored)
      · cases stored
    · have bounded : (path ++ [slot]).length ≤ 3 := by
        rw [length_append, length_singleton]
        omega
      have target := Tables.walk_link valid.tree links empty reached short unused bounded
      rw [if_pos rfl] at target
      exact target
    · intro virt
      exact Tables.entry_link valid.tree links empty reached short unused rfl
    · exact .inr ⟨fun _ => rfl, fun table used => used.of_link valid.tree links empty reached
        short unused⟩

theorem WellFormed.write_spec (valid : vmm.WellFormed) (reached : vmm.walk (tablePath virt) = some frame)
    : (vmm.write (frameBase frame) (slot 12 virt) value).WellFormed ∧
      ∀ other, (vmm.write (frameBase frame) (slot 12 virt) value).entry other =
        if pageNumber other = pageNumber virt then value else vmm.entry other := by
  have same : ∀ table index, table ≠ frame ∨ index ≠ slot 12 virt →
      (vmm.write (frameBase frame) (slot 12 virt) value).memory table index =
        vmm.memory table index := by
    intro table index elsewhere
    rw [memory_write, if_neg]
    rintro ⟨rfl, rfl⟩
    simp at elsewhere
  refine ⟨⟨valid.aligned, valid.tree.store rfl reached same⟩, fun other => ?_⟩
  have stored := Tables.entry_store valid.tree rfl reached same 0
    (show (tablePath other).length = 3 from rfl) (slot 12 other)
  simp only [memory_write, same_path_iff] at stored
  exact stored

theorem WellFormed.vmmMapPage_spec (valid : vmm.WellFormed) {virt : Nat} (fresh : vmm.MapAllocatesFresh virt)
    : (vmm.vmmMapPage virt phys flags).WellFormed ∧
      ∀ other, (vmm.vmmMapPage virt phys flags).entry other =
        if pageNumber other = pageNumber virt then phys ||| flags else vmm.entry other := by
  obtain ⟨firstFresh, secondFresh, thirdFresh⟩ := fresh
  rw [valid.root_base] at firstFresh secondFresh thirdFresh
  obtain ⟨first, pdp, firstStep, firstValid, firstWalk, firstEntries, -⟩ :=
    valid.ensureTable_spec (show vmm.walk [] = some vmm.root from rfl) (by simp) (slot 39 virt)
      (show pml4Index virt = _ from index_eq) firstFresh
  rw [firstStep] at secondFresh thirdFresh
  obtain ⟨second, pd, secondStep, secondValid, secondWalk, secondEntries, -⟩ :=
    firstValid.ensureTable_spec firstWalk (by simp) (slot 30 virt)
      (show pdpIndex virt = _ from index_eq) secondFresh
  rw [secondStep] at thirdFresh
  obtain ⟨third, pt, thirdStep, thirdValid, thirdWalk, thirdEntries, -⟩ :=
    secondValid.ensureTable_spec secondWalk (by simp) (slot 21 virt)
      (show pdIndex virt = _ from index_eq) thirdFresh
  have mapped : vmm.vmmMapPage virt phys flags =
      third.write (frameBase pt) (slot 12 virt) (phys ||| flags) := by
    have leaf : ptIndex virt = slot 12 virt := index_eq
    simp only [vmmMapPage, valid.root_base, firstStep, secondStep, thirdStep, leaf]
  rw [mapped]
  have leafWalk : third.walk (tablePath virt) = some pt := thirdWalk
  obtain ⟨wellFormed, entries⟩ := thirdValid.write_spec leafWalk
  refine ⟨wellFormed, fun other => ?_⟩
  rw [entries, thirdEntries, secondEntries, firstEntries]

/-- The next `count` answers of `pmm_alloc_page` are distinct fresh frames. -/
structure Supplies (vmm : Vmm) (count : Nat) : Prop where
  fresh : ∀ call, call < count → vmm.FreshFrame (vmm.frames call)
  distinct : ∀ call later, call < later → later < count → vmm.frames call ≠ vmm.frames later

theorem Supplies.allocatesFresh {count : Nat} (supplies : vmm.Supplies (count + 1)) (table index : Nat) :
    vmm.AllocatesFresh table index :=
  fun _ => supplies.fresh 0 (Nat.succ_pos count)

theorem Supplies.ensured {count next : Nat} {after : Vmm} (supplies : vmm.Supplies (count + 1))
    (ensured : Ensured vmm path frame index after next) : after.Supplies count := by
  rcases ensured.tables with ⟨sameFrames, sameTables⟩ | ⟨shifted, oneMore⟩
  · refine ⟨fun call bound => ?_, fun call later order bound => ?_⟩
    · obtain ⟨nonzero, aligned, physical, unused⟩ := supplies.fresh call (by omega)
      rw [sameFrames]
      exact ⟨nonzero, aligned, physical, fun used => unused (sameTables _ used)⟩
    · rw [sameFrames, sameFrames]
      exact supplies.distinct call later order (by omega)
  · refine ⟨fun call bound => ?_, fun call later order bound => ?_⟩
    · obtain ⟨nonzero, aligned, physical, unused⟩ := supplies.fresh (call + 1) (by omega)
      have different := supplies.distinct 0 (call + 1) (by omega) (by omega)
      have firstAligned := (supplies.fresh 0 (by omega)).aligned
      rw [shifted]
      refine ⟨nonzero, aligned, physical, fun used => ?_⟩
      rcases oneMore _ used with old | same
      · exact unused old
      · simp only [pageSize] at *
        omega
    · rw [shifted, shifted]
      exact supplies.distinct (call + 1) (later + 1) (by omega) (by omega)

theorem WellFormed.mapAllocatesFresh (valid : vmm.WellFormed) (supplies : vmm.Supplies 3) :
    vmm.MapAllocatesFresh virt := by
  have firstFresh := supplies.allocatesFresh (frameBase vmm.root) (pml4Index virt)
  obtain ⟨first, pdp, firstStep⟩ :=
    valid.ensureTable_spec (show vmm.walk [] = some vmm.root from rfl) (by simp) (slot 39 virt)
      (index_eq) firstFresh
  have firstSupplies := supplies.ensured firstStep
  obtain ⟨second, pd, secondStep⟩ :=
    firstStep.wellFormed.ensureTable_spec firstStep.reached (by simp) (slot 30 virt)
      (index_eq) (firstSupplies.allocatesFresh _ _)
  have secondSupplies := firstSupplies.ensured secondStep
  have firstReturned : vmm.ensureTable vmm.currentPml4 (pml4Index virt) = (first, frameBase pdp) := by
    rw [valid.root_base]
    exact firstStep.returned
  have secondReturned : first.ensureTable (frameBase pdp) (pdpIndex virt) =
      (second, frameBase pd) := secondStep.returned
  refine ⟨supplies.allocatesFresh _ _, ?_, ?_⟩
  · rw [firstReturned]
    exact firstSupplies.allocatesFresh _ _
  · rw [firstReturned, secondReturned]
    exact secondSupplies.allocatesFresh _ _

theorem WellFormed.vmmUnmapPage_spec (valid : vmm.WellFormed) : (vmm.vmmUnmapPage virt).WellFormed ∧
      ∀ other, (vmm.vmmUnmapPage virt).entry other =
        if pageNumber other = pageNumber virt then 0 else vmm.entry other := by
  rw [vmmUnmapPage, valid.pageTable_eq]
  cases reached : vmm.walk (tablePath virt) with
  | some frame =>
    have leaf : ptIndex virt = slot 12 virt := index_eq
    simp only [leaf]
    exact valid.write_spec reached
  | none =>
    simp only [Option.map_none]
    refine ⟨valid, fun other => ?_⟩
    split
    · rename_i same
      rw [entry, ((same_path_iff ..).mpr same).1]
      exact congrArg (fun table => (Option.map _ table).getD 0) reached
    · rfl

end Vmm

inductive VmmOp where
  | map (virt phys flags : Nat)
  | unmap (virt : Nat)

def VmmOp.virt : VmmOp → Nat
  | .map virt _ _ => virt
  | .unmap virt => virt

def VmmOp.pte : VmmOp → Nat
  | .map _ phys flags => phys ||| flags
  | .unmap _ => 0

def VmmOp.phys (virt : Nat) : VmmOp → Nat
  | .map _ phys flags => if Vmm.present (phys ||| flags) then phys ||| (virt &&& 0xFFF) else 0
  | .unmap _ => 0

/-- `flags` uses only bits 0 to 11 and 63. -/
def FlagBits (flags : Nat) : Prop := ∀ bit, flags.testBit bit = true → bit < 12 ∨ bit = 63

inductive VmmStep : Vmm → VmmOp → Vmm → Prop where
  | map {vmm : Vmm} {virt phys flags : Nat} (address : virt < 2 ^ 64)
      (aligned : phys % pageSize = 0) (physical : phys < 2 ^ 52) (flagged : FlagBits flags)
      (fresh : vmm.MapAllocatesFresh virt) :
      VmmStep vmm (.map virt phys flags) (vmm.vmmMapPage virt phys flags)
  | unmap {vmm : Vmm} {virt : Nat} (address : virt < 2 ^ 64) :
      VmmStep vmm (.unmap virt) (vmm.vmmUnmapPage virt)

def lastOn (page : Nat) (trace : List VmmOp) : Option VmmOp :=
  trace.reverse.find? fun op => pageNumber op.virt = page

theorem lastOn_snoc :
    lastOn page (trace ++ [op]) = if pageNumber op.virt = page then some op else lastOn page trace := by
  by_cases here : pageNumber op.virt = page <;> simp [here, lastOn]

theorem land_mask_of_flagBits (aligned : phys % pageSize = 0) (physical : phys < 2 ^ 52) (flagged : FlagBits flags) :
    (phys ||| flags) &&& pteFrameMask = phys := by
  have noFlags : flags &&& pteFrameMask = 0 := by
    have mask : pteFrameMask = (2 ^ 40 - 1) <<< 12 := by decide
    apply Nat.eq_of_testBit_eq
    intro bit
    rw [mask, Nat.testBit_and, Nat.testBit_shiftLeft, testBit_low_mask, Nat.zero_testBit]
    cases set : flags.testBit bit with
    | false => rfl
    | true =>
      have := flagged bit set
      simp
      omega
  have frame : phys &&& pteFrameMask = phys := by
    rw [land_frameMask, frameBase]
    simp only [pageSize] at *
    omega
  rw [Nat.and_or_distrib_right, noFlags, frame, Nat.or_zero]

def translate (entry virt : Nat) : Nat :=
  if Vmm.present entry then (entry &&& pteFrameMask) ||| (virt &&& 0xFFF) else 0

variable {vmm after : Vmm} {op : VmmOp}

theorem VmmStep.spec (valid : vmm.WellFormed) (stepped : VmmStep vmm op after) : after.WellFormed ∧
      ∀ virt, after.entry virt =
        if pageNumber virt = pageNumber op.virt then op.pte else vmm.entry virt := by
  cases stepped with
  | map _ _ _ _ fresh => exact valid.vmmMapPage_spec fresh
  | unmap _ => exact valid.vmmUnmapPage_spec

theorem VmmStep.translate_pte (stepped : VmmStep vmm op after) :
    translate op.pte virt = op.phys virt := by
  cases stepped with
  | map _ aligned physical flagged _ =>
    rw [translate, VmmOp.pte, land_mask_of_flagBits aligned physical flagged]
    rfl
  | unmap _ => simp [translate, VmmOp.pte, VmmOp.phys, present_eq]

/-- A page's entry is the one its last operation left, or else the one the
tables held at the start. -/
theorem run_entries (valid : start.WellFormed) (run : Run VmmStep start trace final) :
    final.WellFormed ∧ ∀ virt, match lastOn (pageNumber virt) trace with
      | none => final.entry virt = start.entry virt
      | some op => final.entry virt = op.pte ∧ translate op.pte virt = op.phys virt := by
  induction run with
  | nil => exact ⟨valid, fun virt => rfl⟩
  | @snoc _ _ _ op earlier last ih =>
    obtain ⟨before, entries⟩ := ih
    obtain ⟨wellFormed, changed⟩ := last.spec before
    refine ⟨wellFormed, fun virt => ?_⟩
    rw [lastOn_snoc, changed]
    by_cases here : pageNumber virt = pageNumber op.virt
    · rw [if_pos here, if_pos here.symm]
      exact ⟨rfl, last.translate_pte⟩
    · rw [if_neg here, if_neg (Ne.symm here)]
      exact entries virt

/-- The page tables are a map from page numbers to entries: after any run, a
page holds what the last `vmm_map_page` or `vmm_unmap_page` on it left, and one
more operation changes no other page. -/
theorem vmm_run_refines_page_map {start final : Vmm} {trace : List VmmOp} (valid : start.WellFormed)
    (run : Run VmmStep start trace final) :
    (∀ virt, match lastOn (pageNumber virt) trace with
      | none => final.vmmGetPte virt = start.vmmGetPte virt ∧
          final.vmmGetPhys virt = start.vmmGetPhys virt
      | some (.map _ phys flags) => final.vmmGetPte virt = phys ||| flags ∧
          final.vmmGetPhys virt =
            if Vmm.present (phys ||| flags) then phys ||| (virt &&& 0xFFF) else 0
      | some (.unmap _) => final.vmmGetPte virt = 0 ∧ final.vmmGetPhys virt = 0) ∧
    (∀ virt, start.vmmGetPte virt = 0 → lastOn (pageNumber virt) trace = none →
      final.vmmGetPte virt = 0 ∧ final.vmmGetPhys virt = 0) ∧
    ∀ op after virt, VmmStep final op after → pageNumber virt ≠ pageNumber op.virt →
      after.vmmGetPte virt = final.vmmGetPte virt ∧
        after.vmmGetPhys virt = final.vmmGetPhys virt := by
  obtain ⟨wellFormed, entries⟩ := run_entries valid run
  refine ⟨fun virt => ?_, fun virt absent untouched => ?_, fun op after virt stepped apart => ?_⟩
  · have found := entries virt
    rw [wellFormed.vmmGetPte_eq, wellFormed.vmmGetPhys_eq, valid.vmmGetPte_eq, valid.vmmGetPhys_eq]
    cases touched : lastOn (pageNumber virt) trace with
    | none =>
      rw [touched] at found
      rw [found]
      exact ⟨rfl, rfl⟩
    | some op =>
      rw [touched] at found
      obtain ⟨pte, phys⟩ := found
      cases op with
      | map _ _ _ =>
        rw [pte]
        exact ⟨rfl, phys⟩
      | unmap _ =>
        rw [pte]
        exact ⟨rfl, phys⟩
  · have found := entries virt
    rw [untouched] at found
    rw [valid.vmmGetPte_eq] at absent
    rw [wellFormed.vmmGetPte_eq, wellFormed.vmmGetPhys_eq, found, absent]
    simp [present_eq]
  · obtain ⟨afterWellFormed, changed⟩ := stepped.spec wellFormed
    rw [afterWellFormed.vmmGetPte_eq, afterWellFormed.vmmGetPhys_eq, wellFormed.vmmGetPte_eq,
      wellFormed.vmmGetPhys_eq, changed, if_neg apart]
    exact ⟨rfl, rfl⟩

def emptyTables : Vmm where
  words := fun _ => 0
  currentPml4 := 4096
  frames := fun call => 4096 * (call + 2)

theorem emptyTables_walk (reached : emptyTables.walk path = some frame) : path = [] ∧ frame = 1 := by
  cases path with
  | nil =>
    cases reached
    exact ⟨rfl, rfl⟩
  | cons index rest =>
    have absent : childFrame (emptyTables.memory emptyTables.root index) = none := by
      simp [childFrame, Vmm.memory, Vmm.read, emptyTables, present_eq]
    simp [Vmm.walk, Tables.walk, absent] at reached

theorem emptyTables_wellFormed : emptyTables.WellFormed where
  aligned := by decide
  tree := by
    intro path other frame _ _ first second
    rw [(emptyTables_walk first).1, (emptyTables_walk second).1]

theorem emptyTables_supplies : emptyTables.Supplies 3 where
  fresh := by
    intro call bound
    have address : emptyTables.frames call = 4096 * (call + 2) := rfl
    refine ⟨?_, ?_, ?_, ?_⟩
    · omega
    · rw [address, pageSize, Nat.mul_mod_right]
    · omega
    · rintro ⟨path, -, reached⟩
      have root := (emptyTables_walk reached).2
      rw [pageSize] at root
      omega
  distinct := by
    intro call later order _
    have first : emptyTables.frames call = 4096 * (call + 2) := rfl
    have second : emptyTables.frames later = 4096 * (later + 2) := rfl
    omega

theorem flagBits_three : FlagBits 3 := by
  intro bit set
  refine .inl (Nat.lt_of_not_le fun large => ?_)
  have small : 3 < 2 ^ bit := Nat.lt_of_lt_of_le (by decide) (Nat.pow_le_pow_right (by decide) large)
  rw [Nat.testBit_lt_two_pow small] at set
  cases set

theorem vmm_run_refines_page_map_empty_tables :
    ∃ final, Run VmmStep emptyTables [.map 0x201000 0x5000 3, .unmap 0x402000] final ∧
      final.vmmGetPte 0x201234 = 0x5003 ∧ final.vmmGetPhys 0x201234 = 0x5234 ∧
      final.vmmGetPte 0x402000 = 0 := by
  have mapped : Run VmmStep emptyTables [.map 0x201000 0x5000 3] _ :=
    Run.nil.snoc (.map (by decide) (by decide) (by decide) flagBits_three
      (emptyTables_wellFormed.mapAllocatesFresh emptyTables_supplies))
  have run : Run VmmStep emptyTables [.map 0x201000 0x5000 3, .unmap 0x402000] _ :=
    mapped.snoc (.unmap (by decide))
  obtain ⟨pages, -, -⟩ := vmm_run_refines_page_map emptyTables_wellFormed run
  exact ⟨_, run, (pages 0x201234).1, (pages 0x201234).2, (pages 0x402000).1⟩

end Rucix.Memory
