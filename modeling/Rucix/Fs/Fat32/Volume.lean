import Rucix.Data.Effects
import Rucix.Fs.Fat32.Model

namespace Rucix.Fs.Fat32

open Rucix.Data Function Device

/-! The volume behind the sectors: FAT entries by cluster number, and the
sectors of each cluster. -/

def fatEntries (sbi : SbInfo) : Nat := sbi.fatSize * 128

namespace Device

def Reliable (device : Device) : Prop := ∀ count, device.failing count = false

def fatEntry (sbi : SbInfo) (device : Device) (cluster : Nat) : Nat :=
  (device.sectors (sbi.fatStartSector + cluster / 128)).get32 (4 * (cluster % 128))

@[simp]
theorem store_self (device : Device) : (device.store sector block).sectors sector = block :=
  update_self ..

theorem store_of_ne {device : Device} {sector other : Nat} {block : Block} (different : other ≠ sector) :
    (device.store sector block).sectors other = device.sectors other :=
  update_of_ne different ..

def clusterSector (sbi : SbInfo) (device : Device) (cluster index : Nat) : Block :=
  device.sectors (sbi.dataStartSector + (cluster - 2) * sbi.sectorsPerCluster + index)

end Device

/-- The FAT comes before the data area, and clusters have a size. -/
structure Geometry (sbi : SbInfo) : Prop where
  cluster_pos : 0 < sbi.sectorsPerCluster
  bytes : sbi.bytesPerCluster = sbi.sectorsPerCluster * 512
  fat_end : sbi.fatStartSector + sbi.fatSize ≤ sbi.dataStartSector
  data_start : sbi.dataStartSector < 2 ^ 32

/-- A cluster with an entry in the FAT that is no end mark. -/
structure Indexed (sbi : SbInfo) (cluster : Nat) : Prop where
  lt_entries : cluster < fatEntries sbi
  lt_end : cluster < endOfChain

/-- A cluster with sectors that `uint32_t` can number. -/
structure Placed (sbi : SbInfo) (cluster : Nat) : Prop extends Indexed sbi cluster where
  two_le : 2 ≤ cluster
  fits : sbi.dataStartSector + (cluster - 2) * sbi.sectorsPerCluster + sbi.sectorsPerCluster ≤ 2 ^ 32

structure Volume where
  /-- The low 28 bits of the FAT entries. -/
  fat : Nat → Nat
  top : Nat → Nat
  data : Nat → Nat → Block

namespace Volume

def setFat (volume : Volume) (cluster value : Nat) : Volume :=
  { volume with fat := update volume.fat cluster value }

def setData (volume : Volume) (cluster index : Nat) (block : Block) : Volume :=
  { volume with
    data := update volume.data cluster (update (volume.data cluster) index block) }

variable {volume : Volume} {cluster other index position : Nat}

@[simp]
theorem setFat_self : (volume.setFat cluster value).fat cluster = value := update_self ..

theorem setFat_of_ne (different : other ≠ cluster) : (volume.setFat cluster value).fat other = volume.fat other :=
  update_of_ne different ..

@[simp]
theorem setData_self : (volume.setData cluster index block).data cluster index = block := by
  simp [setData]

theorem setData_of_ne (different : other ≠ cluster) :
    (volume.setData cluster index block).data other = volume.data other :=
  update_of_ne different ..

theorem setData_index_of_ne (different : position ≠ index) :
    (volume.setData cluster index block).data cluster position = volume.data cluster position := by
  simp [setData, different]

end Volume

/-- A device without read errors that holds the volume. -/
structure Represents (sbi : SbInfo) (device : Device) (volume : Volume) : Prop where
  reliable : device.Reliable
  entry : ∀ cluster, cluster < fatEntries sbi →
    device.fatEntry sbi cluster = volume.top cluster * 2 ^ 28 + volume.fat cluster
  fat_lt : ∀ cluster, cluster < fatEntries sbi → volume.fat cluster < 2 ^ 28
  data : ∀ cluster, Placed sbi cluster → ∀ index, index < sbi.sectorsPerCluster →
    device.clusterSector sbi cluster index = volume.data cluster index

variable {sbi : SbInfo} {volume : Volume} {cluster index : Nat}

theorem Indexed.four_mul (indexed : Indexed sbi cluster) : wrap 32 (cluster * 4) = cluster * 4 := by
  have small := indexed.lt_end
  exact wrap_of_lt (by unfold endOfChain at small; omega)

theorem Indexed.fatOffset_eq (indexed : Indexed sbi cluster) : fatOffset cluster = 4 * (cluster % 128) := by
  rw [fatOffset, indexed.four_mul]
  omega

theorem Placed.sector_eq (placed : Placed sbi cluster) (inside : index < sbi.sectorsPerCluster) :
    wrap 32 (clusterToSector sbi cluster + index) =
      sbi.dataStartSector + (cluster - 2) * sbi.sectorsPerCluster + index := by
  have small := placed.lt_end
  have fits := placed.fits
  have shifted : wrapSub 32 cluster 2 = cluster - 2 :=
    wrapSub_of_le placed.two_le (by unfold endOfChain at small; omega)
  have base : clusterToSector sbi cluster =
      sbi.dataStartSector + (cluster - 2) * sbi.sectorsPerCluster := by
    rw [clusterToSector, shifted]
    exact wrap_of_lt (by omega)
  rw [base]
  exact wrap_of_lt (by omega)

theorem data_sector_ne (geometry : Geometry sbi) (entry : other < fatEntries sbi) :
    sbi.fatStartSector + other / 128 ≠
      sbi.dataStartSector + (cluster - 2) * sbi.sectorsPerCluster + index := by
  have fatEnd := geometry.fat_end
  unfold fatEntries at entry
  omega

theorem data_sector_injective (two : 2 ≤ cluster) (two' : 2 ≤ other) (inside : index < sbi.sectorsPerCluster)
    (inside' : position < sbi.sectorsPerCluster)
    (same : sbi.dataStartSector + (cluster - 2) * sbi.sectorsPerCluster + index =
      sbi.dataStartSector + (other - 2) * sbi.sectorsPerCluster + position) : cluster = other ∧ index = position := by
  have flat : index + (cluster - 2) * sbi.sectorsPerCluster =
      position + (other - 2) * sbi.sectorsPerCluster := by omega
  have quotient := congrArg (· / sbi.sectorsPerCluster) flat
  have positive : 0 < sbi.sectorsPerCluster := by omega
  simp only [Nat.add_mul_div_right _ _ positive, Nat.div_eq_of_lt inside, Nat.div_eq_of_lt inside'] at quotient
  have sameCluster : cluster = other := by omega
  subst sameCluster
  exact ⟨rfl, by omega⟩

theorem low_mask : value &&& 0x0FFFFFFF = value % 2 ^ 28 :=
  Nat.and_two_pow_sub_one_eq_mod value 28

theorem merge_entry (small : old < 2 ^ 28) (bounded : top < 2 ^ 4) :
    ((top * 2 ^ 28 + old) &&& 0xF0000000) ||| (value &&& 0x0FFFFFFF) =
      top * 2 ^ 28 + value % 2 ^ 28 := by
  have high : (top * 2 ^ 28 + old) &&& 0xF0000000 = top * 2 ^ 28 := by
    have mask := land_block_mask (top * 2 ^ 28 + old) 28 4
    rw [show (2 ^ 4 - 1) <<< 28 = 0xF0000000 from rfl] at mask
    rw [mask]
    omega
  rw [high, low_mask, Nat.mul_comm top]
  exact (Nat.two_pow_add_eq_or_of_lt (Nat.mod_lt _ (Nat.two_pow_pos 28)) top).symm

theorem Represents.read {device : Device} (represents : Represents sbi device volume) (reads : Nat) :
    Represents sbi { device with reads } volume :=
  ⟨represents.reliable, represents.entry, represents.fat_lt, represents.data⟩

theorem Device.Reliable.bread (reliable : device.Reliable) : (bread sector).run device =
      some (some (device.sectors sector), { device with reads := device.reads + 1 }) := by
  change some (if device.failing device.reads then none else some (device.sectors sector), _) = _
  rw [reliable device.reads]
  rfl

theorem bread_yields (placed : Placed sbi cluster) (inside : index < sbi.sectorsPerCluster) :
    Yields (Represents sbi) (bread (wrap 32 (clusterToSector sbi cluster + index))) volume
      (some (volume.data cluster index)) volume := by
  intro device represents
  refine ⟨_, 0, fun _ _ => ?_, represents.read (device.reads + 1)⟩
  rw [represents.reliable.bread, placed.sector_eq inside]
  exact congrArg (fun block => some (some block, _)) (represents.data cluster placed index inside)

theorem Represents.setData {device : Device} (geometry : Geometry sbi) (represents : Represents sbi device volume)
    (placed : Placed sbi cluster) (inside : index < sbi.sectorsPerCluster) : Represents sbi
      (device.store (sbi.dataStartSector + (cluster - 2) * sbi.sectorsPerCluster + index) block)
      (volume.setData cluster index block) := by
  refine ⟨represents.reliable, fun other entry => ?_, represents.fat_lt,
    fun other isPlaced position within => ?_⟩
  · rw [fatEntry, store_of_ne (data_sector_ne geometry entry)]
    exact represents.entry other entry
  · rw [clusterSector]
    have kept := represents.data other isPlaced position within
    by_cases sameCluster : other = cluster
    · subst sameCluster
      by_cases sameIndex : position = index
      · rw [sameIndex, store_self, Volume.setData_self]
      · rw [Volume.setData_index_of_ne sameIndex, store_of_ne (by omega)]
        exact kept
    · rw [Volume.setData_of_ne sameCluster, store_of_ne fun equal => sameCluster
        (data_sector_injective isPlaced.two_le placed.two_le within inside equal).1]
      exact kept

theorem sync_yields (geometry : Geometry sbi) (placed : Placed sbi cluster) (inside : index < sbi.sectorsPerCluster)
    (volume : Volume) :
    Yields (Represents sbi) (syncDirtyBuffer (wrap 32 (clusterToSector sbi cluster + index)) block)
      volume () (volume.setData cluster index block) := by
  intro device represents
  refine ⟨_, 0, fun _ _ => ?_, represents.setData geometry placed inside⟩
  rw [placed.sector_eq inside]
  rfl

theorem fatEntry_update_ne {device : Device} {other : Nat} (different : other ≠ cluster) :
    (device.store (sbi.fatStartSector + cluster / 128)
      ((device.sectors (sbi.fatStartSector + cluster / 128)).put32 (4 * (cluster % 128)) value)).fatEntry
      sbi other = device.fatEntry sbi other := by
  rw [fatEntry, fatEntry]
  by_cases same : other / 128 = cluster / 128
  · rw [same, store_self]
    refine Block.get32_put_outside ?_
    rw [Block.bytes32_length]
    omega
  · rw [store_of_ne (by omega)]

variable (geometry : Geometry sbi) (indexed : Indexed sbi cluster)
include geometry indexed

theorem Indexed.fatSector_eq :
    fatSector sbi cluster = sbi.fatStartSector + cluster / 128 := by
  have entries := indexed.lt_entries
  have fatEnd := geometry.fat_end
  have dataStart := geometry.data_start
  unfold fatEntries at entries
  rw [fatSector, indexed.four_mul, show cluster * 4 / 512 = cluster / 128 by omega]
  exact wrap_of_lt (by omega)

theorem nextCluster_yields (volume : Volume) :
    Yields (Represents sbi) (nextCluster sbi cluster) volume (volume.fat cluster) volume := by
  intro device represents
  refine ⟨_, 0, fun _ _ => ?_, represents.read (device.reads + 1)⟩
  have entry := represents.entry cluster indexed.lt_entries
  rw [fatEntry] at entry
  simp only [nextCluster, StateT.run_bind, represents.reliable.bread, indexed.fatSector_eq geometry,
    indexed.fatOffset_eq, Option.bind_eq_bind, Option.bind_some, entry, low_mask]
  have small := represents.fat_lt cluster indexed.lt_entries
  rw [show (volume.top cluster * 2 ^ 28 + volume.fat cluster) % 2 ^ 28 = volume.fat cluster by omega]
  rfl

theorem writeFatEntry_yields (volume : Volume) (value : Nat) :
    Yields (Represents sbi) (writeFatEntry sbi cluster value) volume 0
      (volume.setFat cluster (value % 2 ^ 28)) := by
  intro device represents
  have entry := represents.entry cluster indexed.lt_entries
  have small := represents.fat_lt cluster indexed.lt_entries
  have bounded : volume.top cluster < 2 ^ 4 := by
    have word : device.fatEntry sbi cluster < 2 ^ 32 := Block.get32_lt
    omega
  rw [fatEntry] at entry
  let read : Device := { device with reads := device.reads + 1 }
  refine ⟨read.store (sbi.fatStartSector + cluster / 128)
    ((device.sectors (sbi.fatStartSector + cluster / 128)).put32 (4 * (cluster % 128))
      (volume.top cluster * 2 ^ 28 + value % 2 ^ 28)), 0, fun _ _ => ?_, ?_⟩
  · simp only [writeFatEntry, StateT.run_bind, represents.reliable.bread, indexed.fatSector_eq geometry,
      indexed.fatOffset_eq, Option.bind_eq_bind, Option.bind_some, entry, merge_entry small bounded]
    rfl
  · refine ⟨represents.reliable, fun other isEntry => ?_, fun other isEntry => ?_,
      fun other isPlaced position within => ?_⟩
    · by_cases same : other = cluster
      · subst same
        rw [fatEntry, store_self, Block.get32_put32, Volume.setFat_self]
        exact Nat.mod_eq_of_lt (by omega)
      · rw [Volume.setFat_of_ne same]
        exact (fatEntry_update_ne same).trans (represents.entry other isEntry)
    · by_cases same : other = cluster
      · subst same
        rw [Volume.setFat_self]
        omega
      · rw [Volume.setFat_of_ne same]
        exact represents.fat_lt other isEntry
    · rw [clusterSector, store_of_ne (data_sector_ne geometry indexed.lt_entries).symm]
      exact represents.data other isPlaced position within

end Rucix.Fs.Fat32
