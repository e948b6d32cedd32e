import Rucix.Fs.Fat32.Integrity

namespace Rucix.Fs.Fat32

open Rucix.Data

/-! What `fat32_mount` lets through, and where the allocator can land.

`fat32_find_free_cluster` counts clusters by all sectors of the volume, the reserved
sectors and the FATs included.  Nothing of the boot sector but its signature is
checked.
-/

theorem bread_returns : Ensures (bread sector) fun _ => True := fun _ => ⟨_, _, rfl, trivial⟩

theorem nextCluster_returns : Ensures (nextCluster sbi cluster) fun _ => True := by
  refine .bind bread_returns fun block _ => ?_
  cases block <;> exact .pure trivial

theorem writeFatEntry_returns : Ensures (writeFatEntry sbi cluster value) fun _ => True := by
  refine .bind bread_returns fun block _ => ?_
  cases block with
  | none => exact .pure trivial
  | some _ => exact .bind (fun _ => ⟨_, _, rfl, trivial⟩) fun _ (_ : True) => .pure trivial

theorem clearSectors_returns : Ensures (clearSectors sector steps index) fun _ => True := by
  induction steps generalizing index with
  | zero => exact .pure trivial
  | succ steps ih =>
    refine .bind bread_returns fun block _ => ?_
    cases block with
    | none => exact ih
    | some _ => exact .bind (fun _ => ⟨_, _, rfl, trivial⟩) fun _ (_ : True) => ih

theorem findFreeFrom_range : Ensures (findFreeFrom sbi steps cluster)
    fun found => found = 0 ∨ cluster ≤ found ∧ found < cluster + steps := by
  induction steps generalizing cluster with
  | zero => exact .pure (.inl rfl)
  | succ steps ih =>
    refine .bind nextCluster_returns fun value _ => ?_
    split
    · exact .pure (.inr ⟨le_rfl, by omega⟩)
    · intro device
      obtain ⟨found, final, searched, range⟩ := ih device
      exact ⟨found, final, searched, by omega⟩

theorem linkCluster_returns : Ensures (linkCluster sbi prev cluster) fun _ => True := by
  unfold linkCluster
  split
  · refine .bind writeFatEntry_returns fun status _ => ?_
    split
    · exact .bind writeFatEntry_returns fun _ _ => .pure trivial
    · exact .pure trivial
  · exact .pure trivial

/-- On any device, with any pattern of failing reads. -/
theorem allocCluster_range : Ensures (allocCluster sbi prev)
    fun cluster => cluster = 0 ∨ 2 ≤ cluster ∧ cluster < maxCluster sbi := by
  refine .bind findFreeFrom_range fun found range => ?_
  split
  · exact .pure (.inl rfl)
  · refine .bind writeFatEntry_returns fun status _ => ?_
    split
    · exact .pure (.inl rfl)
    · refine .bind linkCluster_returns fun linked _ => ?_
      split
      · exact .bind clearSectors_returns fun _ _ => .pure (by omega)
      · exact .pure (.inl rfl)

/-- The division of the processor; by zero it raises an exception. -/
def divide (dividend divisor : Nat) : Option Nat := if divisor = 0 then none else some (dividend / divisor)

/-- `fat32_alloc_cluster` starts with the division in `fat32_find_free_cluster`; `none` is
its exception. -/
def allocClusterOrTrap (sbi : SbInfo) (prev : Nat) : Io (Option Nat) :=
  match divide sbi.totalSectors sbi.sectorsPerCluster with
  | none => return none
  | some _ => do return some (← allocCluster sbi prev)

/-- The entry of the cluster is in the first FAT, and its sectors are in the data area. -/
def Inside (sbi : SbInfo) (cluster : Nat) : Prop :=
  cluster * 4 < sbi.fatSize * 512 ∧ ∀ index, index < sbi.sectorsPerCluster →
    sbi.dataStartSector ≤ wrap 32 (clusterToSector sbi cluster + index) ∧
      wrap 32 (clusterToSector sbi cluster + index) < sbi.totalSectors

/-- The FAT and the volume have room for every cluster that the allocator counts. -/
structure Fits (sbi : SbInfo) : Prop where
  divisible : sbi.sectorsPerCluster ≠ 0
  room : 2 < maxCluster sbi → (maxCluster sbi - 1) * 4 < sbi.fatSize * 512 ∧
    sbi.dataStartSector + (maxCluster sbi - 2) * sbi.sectorsPerCluster ≤ sbi.totalSectors

theorem sbInfo_sectors_lt : (sbInfo boot).totalSectors < 2 ^ 32 ∧ (sbInfo boot).dataStartSector < 2 ^ 32 := by
  have short : boot.get16 19 < 2 ^ 16 := Block.get16_lt
  refine ⟨?_, Nat.mod_lt _ (by decide)⟩
  change (if boot.get16 19 = 0 then boot.get32 32 else boot.get16 19) < 2 ^ 32
  split
  · exact Block.get32_lt
  · omega

theorem mount_sectors : Ensures mount
    fun info => ∀ sbi ∈ info, sbi.totalSectors < 2 ^ 32 ∧ sbi.dataStartSector < 2 ^ 32 := by
  refine .bind bread_returns fun block _ => ?_
  cases block with
  | none => exact .pure nofun
  | some boot =>
    refine .pure fun sbi accepted => ?_
    split at accepted
    · cases accepted
    · cases accepted
      exact sbInfo_sectors_lt

theorem mount_sectors_lt (mounted : mount.run disk = some (some sbi, opened)) :
    sbi.totalSectors < 2 ^ 32 ∧ sbi.dataStartSector < 2 ^ 32 := by
  obtain ⟨info, final, returned, small⟩ := mount_sectors disk
  cases mounted.symm.trans returned
  exact small sbi rfl

/-- While a cluster ends before sector 2 ^ 32 of the data area, its sectors can wrap around
only once. -/
theorem inside_iff (small : sbi.totalSectors < 2 ^ 32 ∧ sbi.dataStartSector < 2 ^ 32) (two : 2 ≤ cluster)
    (counted : cluster < maxCluster sbi) : Inside sbi cluster ↔ cluster * 4 < sbi.fatSize * 512 ∧
      sbi.dataStartSector + (cluster - 1) * sbi.sectorsPerCluster ≤ sbi.totalSectors := by
  have total : maxCluster sbi * sbi.sectorsPerCluster ≤ sbi.totalSectors := Nat.div_mul_le_self ..
  have ends : (cluster - 1) * sbi.sectorsPerCluster + sbi.sectorsPerCluster ≤ sbi.totalSectors := by
    rw [← Nat.succ_mul]
    exact (Nat.mul_le_mul_right _ (by omega)).trans total
  have last : (cluster - 2) * sbi.sectorsPerCluster + sbi.sectorsPerCluster =
      (cluster - 1) * sbi.sectorsPerCluster := by
    rw [← Nat.succ_mul, show (cluster - 2).succ = cluster - 1 by omega]
  have positive : 0 < sbi.sectorsPerCluster := by
    rw [Nat.pos_iff_ne_zero]
    intro zero
    simp [maxCluster, zero] at counted
  have clusters : cluster < 2 ^ 32 := by
    have : maxCluster sbi ≤ sbi.totalSectors := Nat.div_le_self ..
    omega
  rw [Inside, clusterToSector, wrapSub_of_le two clusters]
  refine and_congr_right fun _ => ⟨fun inside => ?_, fun fits index within => ?_⟩
  · have lower := inside 0 positive
    have upper := inside (sbi.sectorsPerCluster - 1) (by omega)
    simp only [wrap] at lower upper
    omega
  · simp only [wrap]
    omega

/-- The first `bad` reads of this device fail, and its sectors are zero. -/
def failingFirst (bad reads : Nat) : Device := ⟨fun _ => Block.zero, fun read => decide (read < bad), reads⟩

theorem failingFirst_bread : (bread sector).run (failingFirst bad reads) =
    some (if reads < bad then none else some Block.zero, failingFirst bad (reads + 1)) := by
  by_cases fails : reads < bad <;> simp [bread, failingFirst, fails, StateT.run]

theorem zero_get32 : Block.zero.get32 place = 0 := rfl

/-- A failed read stands for a cluster in use. -/
theorem findFreeFrom_failingFirst (order : reads ≤ bad) (within : bad - reads < steps) :
    (findFreeFrom sbi steps cluster).run (failingFirst bad reads) =
      some (cluster + (bad - reads), failingFirst bad (bad + 1)) := by
  induction steps generalizing cluster reads with
  | zero => omega
  | succ steps ih =>
    by_cases fails : reads < bad
    · have next : (findFreeFrom sbi (steps + 1) cluster).run (failingFirst bad reads) =
          (findFreeFrom sbi steps (cluster + 1)).run (failingFirst bad (reads + 1)) := by
        simp [findFreeFrom, nextCluster, failingFirst_bread, fails]
      rw [next, ih (by omega) (by omega)]
      congr 2
      omega
    · obtain rfl : reads = bad := by omega
      simp [findFreeFrom, nextCluster, failingFirst_bread, zero_get32]

theorem allocCluster_failingFirst (many : 2 < maxCluster sbi) :
    ∃ after, (allocCluster sbi 0).run (failingFirst (maxCluster sbi - 3) 0) = some (maxCluster sbi - 1, after) := by
  have found : (findFreeCluster sbi).run (failingFirst (maxCluster sbi - 3) 0) =
      some (maxCluster sbi - 1, failingFirst (maxCluster sbi - 3) (maxCluster sbi - 3 + 1)) := by
    rw [findFreeCluster, findFreeFrom_failingFirst (Nat.zero_le _) (by omega)]
    congr 2
    omega
  have marked : ∃ middle, (writeFatEntry sbi (maxCluster sbi - 1) 0x0FFFFFFF).run
      (failingFirst (maxCluster sbi - 3) (maxCluster sbi - 3 + 1)) = some (0, middle) := by
    simp only [writeFatEntry, StateT.run_bind, failingFirst_bread, Nat.not_succ_lt_self]
    exact ⟨_, rfl⟩
  obtain ⟨middle, marked⟩ := marked
  have clears : Ensures (clearSectors (clusterToSector sbi (maxCluster sbi - 1)) sbi.sectorsPerCluster 0) _ :=
    clearSectors_returns
  obtain ⟨_, after, cleared, -⟩ := clears middle
  refine ⟨after, ?_⟩
  have positive : maxCluster sbi - 1 ≠ 0 := by omega
  simp [allocCluster, found, positive, marked, linkCluster, cleared]

theorem allocated_cluster_inside (mounted : mount.run disk = some (some sbi, opened)) :
    (∀ device prev, ∃ cluster after, (allocClusterOrTrap sbi prev).run device = some (some cluster, after) ∧
      (cluster ≠ 0 → Inside sbi cluster)) ↔ Fits sbi := by
  have small := mount_sectors_lt mounted
  constructor
  · intro safe
    have divisible : sbi.sectorsPerCluster ≠ 0 := by
      intro zero
      obtain ⟨cluster, after, returned, -⟩ := safe ⟨fun _ => Block.zero, fun _ => false, 0⟩ 0
      simp [allocClusterOrTrap, divide, zero] at returned
    refine ⟨divisible, fun many => ?_⟩
    obtain ⟨final, found⟩ := allocCluster_failingFirst many
    obtain ⟨cluster, after, returned, inside⟩ := safe (failingFirst (maxCluster sbi - 3) 0) 0
    obtain ⟨rfl, -⟩ : maxCluster sbi - 1 = cluster ∧ final = after := by
      simpa [allocClusterOrTrap, divide, divisible, found] using returned
    exact (inside_iff small (by omega) (by omega)).mp (inside (by omega))
  · intro fits device prev
    have allocates : Ensures (allocCluster sbi prev) _ := allocCluster_range
    obtain ⟨cluster, after, returned, range⟩ := allocates device
    refine ⟨cluster, after, ?_, fun allocated => ?_⟩
    · simp [allocClusterOrTrap, divide, fits.divisible, returned]
    · obtain ⟨two, counted⟩ := range.resolve_left allocated
      obtain ⟨entries, sectors⟩ := fits.room (by omega)
      refine (inside_iff small two counted).mpr ⟨by omega, ?_⟩
      exact (Nat.add_le_add_left (Nat.mul_le_mul_right _ (by omega)) _).trans sectors

def smallMedium : Device :=
  let boot := Block.zero.put 13 [1, 1, 0, 1]
  let boot := boot.put16 19 10
  let boot := boot.put32 36 1
  let boot := boot.put32 44 2
  smallDisk.store 0 (boot.put16 510 0xAA55)

theorem allocated_cluster_inside_small : ∃ opened after,
    mount.run smallMedium = some (some smallInfo, opened) ∧ Fits smallInfo ∧
      (allocClusterOrTrap smallInfo 0).run opened = some (some 3, after) ∧ Inside smallInfo 3 := by
  have mounted : mount.run smallMedium = some (some smallInfo, { smallMedium with reads := 1 }) := rfl
  have fits : Fits smallInfo := ⟨by decide, fun _ => by decide⟩
  have third : ((allocClusterOrTrap smallInfo 0).run { smallMedium with reads := 1 }).map Prod.fst =
      some (some 3) := by decide +kernel
  obtain ⟨cluster, after, returned, inside⟩ :=
    (allocated_cluster_inside mounted).mpr fits { smallMedium with reads := 1 } 0
  obtain rfl : cluster = 3 := by simpa [returned] using third
  exact ⟨_, after, mounted, fits, returned, inside (by decide)⟩

def signedDisk : Device := smallDisk.store 0 (Block.zero.put16 510 0xAA55)

/-- The first free cluster of the full volume lies partly in its reserved sectors, and a
boot sector without clusters lets `fat32_find_free_cluster` divide by zero. -/
theorem mount_accepts_any_geometry :
    (mount.run fullDisk).map Prod.fst = some (some fullInfo) ∧
      (∃ after, (allocClusterOrTrap fullInfo 0).run fullDisk = some (some 33552385, after)) ∧
      wrap 32 (clusterToSector fullInfo 33552385 + 64) < fullInfo.dataStartSector ∧
      ∃ info opened, mount.run signedDisk = some (some info, opened) ∧
        (allocClusterOrTrap info 0).run opened = some (none, opened) := by
  obtain ⟨after, returned, -⟩ := fullDisk_allocCluster
  refine ⟨fullDisk_mount, ⟨after, ?_⟩, by decide, _, _, rfl, rfl⟩
  have count : divide fullInfo.totalSectors fullInfo.sectorsPerCluster = some 33554431 := rfl
  simp [allocClusterOrTrap, count, returned]

end Rucix.Fs.Fat32
