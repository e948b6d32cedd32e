import Mathlib.Data.Finset.Card
import Rucix.Fs.Fat32.Chains

namespace Rucix.Fs.Fat32

open Rucix.Data Function

/-! What the allocator does to a volume. -/

variable {fat : Nat → Nat}

def freeClusters (sbi : SbInfo) (fat : Nat → Nat) : Finset Nat :=
  (Finset.range (maxCluster sbi)).filter fun cluster => 2 ≤ cluster ∧ fat cluster = 0

theorem mem_freeClusters :
    cluster ∈ freeClusters sbi fat ↔ cluster < maxCluster sbi ∧ 2 ≤ cluster ∧ fat cluster = 0 := by
  simp [freeClusters]

theorem findFreeFrom_yields (geometry : Geometry sbi)
    (indexed : ∀ other, cluster ≤ other → other < cluster + steps → Indexed sbi other) :
    ∃ found, Yields (Represents sbi) (findFreeFrom sbi steps cluster) volume found volume ∧
      ((found = 0 ∧ ∀ other, cluster ≤ other → other < cluster + steps → volume.fat other ≠ 0) ∨
        (cluster ≤ found ∧ found < cluster + steps ∧ volume.fat found = 0 ∧
          ∀ other, cluster ≤ other → other < found → volume.fat other ≠ 0)) := by
  induction steps generalizing cluster with
  | zero => exact ⟨0, .pure, .inl ⟨rfl, fun other low high => by omega⟩⟩
  | succ steps ih =>
    have read := nextCluster_yields geometry (indexed cluster le_rfl (by omega)) volume
    by_cases isFree : volume.fat cluster = 0
    · refine ⟨cluster, .bind read ?_, .inr ⟨le_rfl, by omega, isFree, fun other low high => by omega⟩⟩
      rw [if_pos isFree]
      exact .pure
    · have extend : ∀ limit, (∀ other, cluster + 1 ≤ other → other < limit → volume.fat other ≠ 0) →
          ∀ other, cluster ≤ other → other < limit → volume.fat other ≠ 0 := by
        intro limit used other low high
        by_cases same : other = cluster
        · rwa [same]
        · exact used other (by omega) high
      obtain ⟨found, searched, outcome⟩ := ih fun other (low : cluster + 1 ≤ other) high =>
        indexed other (by omega) (by omega)
      refine ⟨found, .bind read ?_, ?_⟩
      · rw [if_neg isFree]
        exact searched
      · rcases outcome with ⟨none, used⟩ | ⟨low, high, free, used⟩
        · exact .inl ⟨none, extend _ fun other low high => used other low (by omega)⟩
        · exact .inr ⟨by omega, by omega, free, extend found used⟩

theorem findFreeCluster_yields (addressable : Addressable sbi) :
    ∃ found, Yields (Represents sbi) (findFreeCluster sbi) volume found volume ∧
      ((found = 0 ∧ freeClusters sbi volume.fat = ∅) ∨
        (found ≠ 0 ∧ found ∈ freeClusters sbi volume.fat)) := by
  by_cases small : maxCluster sbi ≤ 2
  · refine ⟨0, ?_, .inl ⟨rfl, ?_⟩⟩
    · rw [findFreeCluster, Nat.sub_eq_zero_of_le small]
      exact .pure
    · refine Finset.eq_empty_of_forall_notMem fun cluster member => ?_
      have := mem_freeClusters.mp member
      omega
  · obtain ⟨found, searched, outcome⟩ := findFreeFrom_yields addressable.toGeometry
      fun other two (bound : other < 2 + (maxCluster sbi - 2)) =>
        (addressable.allocatable other two (by omega)).toIndexed
    refine ⟨found, searched, ?_⟩
    rcases outcome with ⟨none, used⟩ | ⟨low, high, free, -⟩
    · refine .inl ⟨none, Finset.eq_empty_of_forall_notMem fun cluster member => ?_⟩
      obtain ⟨bound, two, free⟩ := mem_freeClusters.mp member
      exact used cluster two (by omega) free
    · exact .inr ⟨by omega, mem_freeClusters.mpr ⟨by omega, low, free⟩⟩

theorem clearSectors_yields (geometry : Geometry sbi) (placed : Placed sbi cluster)
    (bound : index + steps = sbi.sectorsPerCluster) (volume : Volume) :
    ∃ after, Yields (Represents sbi) (clearSectors (clusterToSector sbi cluster) steps index) volume ()
        after ∧ after.fat = volume.fat ∧ after.top = volume.top ∧
      (∀ other, other ≠ cluster → after.data other = volume.data other) ∧
      (∀ position, position < index → after.data cluster position = volume.data cluster position) ∧
      ∀ position, index ≤ position → position < sbi.sectorsPerCluster →
        after.data cluster position = Block.zero := by
  induction steps generalizing index volume with
  | zero =>
    exact ⟨volume, .pure, rfl, rfl, fun _ _ => rfl, fun _ _ => rfl,
      fun position low high => by omega⟩
  | succ steps ih =>
    have inside : index < sbi.sectorsPerCluster := by omega
    obtain ⟨after, cleared, fat, top, others, early, late⟩ :=
      ih (show index + 1 + steps = _ by omega) (volume.setData cluster index Block.zero)
    refine ⟨after, .bind (bread_yields placed inside)
      (.bind (sync_yields geometry placed inside volume) cleared), fat, top, ?_, ?_, ?_⟩
    · intro other different
      rw [others other different, Volume.setData_of_ne different]
    · intro position small
      rw [early position (by omega), Volume.setData_index_of_ne (by omega)]
    · intro position low high
      by_cases same : position = index
      · rw [same, early index (by omega), Volume.setData_self]
      · exact late position (by omega) high

/-- The volume after `fat32_alloc_cluster` has returned `cluster`. -/
structure Allocated (sbi : SbInfo) (volume : Volume) (prev cluster : Nat) (after : Volume) : Prop where
  chosen : cluster ∈ freeClusters sbi volume.fat
  fat : after.fat =
    if prev = 0 then update volume.fat cluster 0x0FFFFFFF
    else update (update volume.fat cluster 0x0FFFFFFF) prev cluster
  top : after.top = volume.top
  others : ∀ other, other ≠ cluster → after.data other = volume.data other
  cleared : ∀ index, index < sbi.sectorsPerCluster → after.data cluster index = Block.zero

theorem linkCluster_yields (geometry : Geometry sbi) (reachable : prev = 0 ∨ Placed sbi prev)
    (small : cluster < 2 ^ 28) (volume : Volume) :
    Yields (Represents sbi) (linkCluster sbi prev cluster) volume true
      (if prev = 0 then volume else volume.setFat prev cluster) := by
  by_cases none : prev = 0
  · rw [linkCluster, if_neg (not_not.mpr none), if_pos none]
    exact .pure
  · rw [linkCluster, if_pos none, if_neg none]
    have written := writeFatEntry_yields geometry (reachable.resolve_left none).toIndexed volume cluster
    rw [Nat.mod_eq_of_lt small] at written
    exact .bind written (.pure)

theorem allocCluster_yields (addressable : Addressable sbi) (reachable : prev = 0 ∨ Placed sbi prev) :
    (Yields (Represents sbi) (allocCluster sbi prev) volume 0 volume ∧
        freeClusters sbi volume.fat = ∅) ∨
      ∃ cluster after, cluster ≠ 0 ∧
        Yields (Represents sbi) (allocCluster sbi prev) volume cluster after ∧
        Allocated sbi volume prev cluster after := by
  obtain ⟨found, searched, outcome⟩ := findFreeCluster_yields addressable
  rcases outcome with ⟨none, full⟩ | ⟨some, chosen⟩
  · refine .inl ⟨.bind searched ?_, full⟩
    rw [if_pos none]
    exact .pure
  · obtain ⟨bound, two, free⟩ := mem_freeClusters.mp chosen
    have placed := addressable.allocatable found two bound
    have small : found < 2 ^ 28 := by
      have limit := placed.lt_end
      unfold endOfChain at limit
      omega
    have closed := writeFatEntry_yields addressable.toGeometry placed.toIndexed volume 0x0FFFFFFF
    have linked := linkCluster_yields addressable.toGeometry reachable small
      (volume.setFat found (0x0FFFFFFF % 2 ^ 28))
    obtain ⟨after, cleared, fat, top, others, -, zero⟩ := clearSectors_yields addressable.toGeometry placed
      (Nat.zero_add _)
      (if prev = 0 then volume.setFat found (0x0FFFFFFF % 2 ^ 28)
        else (volume.setFat found (0x0FFFFFFF % 2 ^ 28)).setFat prev found)
    refine .inr ⟨found, after, some, .bind searched ?_, chosen, ?_, ?_, ?_, fun index inside =>
      zero index (Nat.zero_le _) inside⟩
    · rw [if_neg some]
      exact .bind closed (.bind linked (.bind cleared (.pure)))
    · rw [fat]
      split <;> rfl
    · rw [top]
      split <;> rfl
    · intro other different
      rw [others other different]
      split <;> rfl

namespace Allocated

variable (allocated : Allocated sbi volume prev cluster after)
include allocated

theorem free : volume.fat cluster = 0 := (mem_freeClusters.mp allocated.chosen).2.2

theorem placed (addressable : Addressable sbi) : Placed sbi cluster :=
  addressable.allocatable cluster (mem_freeClusters.mp allocated.chosen).2.1
    (mem_freeClusters.mp allocated.chosen).1

theorem start (addressable : Addressable sbi) (wellFormed : Chains sbi volume.fat chains) (first : prev = 0) :
    Chains sbi after.fat (update chains cluster [cluster]) := by
  rw [allocated.fat, if_pos first]
  exact wellFormed.start (allocated.placed addressable) allocated.free

theorem extend (addressable : Addressable sbi) (wellFormed : Chains sbi volume.fat chains)
    (shape : chains head = before ++ [prev]) :
    Chains sbi after.fat (update chains head (chains head ++ [cluster])) := by
  have two := (wellFormed.placed head prev (by simp [shape])).two_le
  rw [allocated.fat, if_neg (by omega)]
  exact wellFormed.extend (allocated.placed addressable) allocated.free shape

end Allocated

end Rucix.Fs.Fat32
