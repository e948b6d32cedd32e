import Mathlib.Order.Interval.Finset.Nat
import Rucix.Fs.Fat32.Growth

namespace Rucix.Fs.Fat32

open Rucix.Data List

/-! `fat32_read`. -/

variable {chains : Nat → List Nat} {head : Nat}

theorem copyBytes_length (count : Nat) : (copyBytes block offset count).length = count := by
  rw [copyBytes, length_map, length_range]

@[simp]
theorem copyBytes_nil (offset : Nat) : copyBytes block offset 0 = [] := rfl

theorem copyBytes_append (offset count : Nat) : copyBytes block offset (count + more) =
      copyBytes block offset count ++ copyBytes block (offset + count) more := by
  simp only [copyBytes, range_add, map_append, map_map]
  congr 1
  refine map_congr_left fun index _ => ?_
  rw [Function.comp_apply, Nat.add_assoc]

theorem copyBytes_congr {count : Nat}
    (same : ∀ index, index < count → other (position + index) = block (offset + index)) :
    copyBytes other position count = copyBytes block offset count :=
  map_congr_left fun index listed => same index (mem_range.mp listed)

theorem copyBytes_sector {count : Nat} (fits : offset + count ≤ 512) :
    copyBytes (volume.data cluster index) offset count =
      copyBytes (clusterBytes volume cluster) (512 * index + offset) count := by
  refine (copyBytes_congr fun position inside => ?_).symm
  rw [clusterBytes, show (512 * index + offset + position) / 512 = index by omega,
    show (512 * index + offset + position) % 512 = offset + position by omega]

theorem copyBytes_cluster (shape : chain = before ++ cluster :: rest) {count : Nat}
    (fits : offset + count ≤ sbi.sectorsPerCluster * 512) :
    copyBytes (clusterBytes volume cluster) offset count =
      copyBytes (fileBytes sbi volume chain)
        (before.length * (sbi.sectorsPerCluster * 512) + offset) count := by
  refine (copyBytes_congr fun position inside => ?_).symm
  have small : offset + position < sbi.sectorsPerCluster * 512 := by omega
  have here : chain[before.length]? = some cluster := by
    rw [shape, getElem?_append_right le_rfl, Nat.sub_self]
    rfl
  have quotient : (before.length * (sbi.sectorsPerCluster * 512) + offset + position) /
      (sbi.sectorsPerCluster * 512) = before.length := by
    rw [Nat.add_assoc, Nat.mul_comm, Nat.mul_add_div (by omega), Nat.div_eq_of_lt small, Nat.add_zero]
  have remainder : (before.length * (sbi.sectorsPerCluster * 512) + offset + position) %
      (sbi.sectorsPerCluster * 512) = offset + position := by
    rw [Nat.add_assoc, Nat.mul_comm, Nat.mul_add_mod, Nat.mod_eq_of_lt small]
  simp only [fileBytes, quotient, remainder, here]

theorem skipClusters_yields (geometry : Geometry sbi) (wellFormed : Chains sbi volume.fat chains)
    (shape : chains head = before ++ cluster :: rest) (enough : steps ≤ rest.length) :
    ∃ found early late, chains head = early ++ found :: late ∧ early.length = before.length + steps ∧
      Yields (Represents sbi) (skipClusters sbi steps cluster) volume (some found) volume := by
  induction steps generalizing before cluster rest with
  | zero => exact ⟨cluster, before, rest, shape, rfl, .pure⟩
  | succ steps ih =>
    cases rest with
    | nil => simp at enough
    | cons next rest =>
      have shape' : chains head = (before ++ [cluster]) ++ next :: rest :=
        shape.trans (append_cons before cluster (next :: rest))
      obtain ⟨found, early, late, split, length, skipped⟩ := ih shape' (by simpa using enough)
      have read := nextCluster_yields geometry
        (wellFormed.placed head cluster (by simp [shape])).toIndexed volume
      rw [wellFormed.fat_link shape] at read
      refine ⟨found, early, late, split, ?_, .bind read ?_⟩
      · rw [length, length_append, length_singleton]
        omega
      · rw [if_neg (not_le.mpr (wellFormed.placed head next (by simp [shape])).lt_end)]
        exact skipped

/-- The sectors of one cluster from `index` on: as many bytes are copied as are
wanted and left. -/
theorem readSectors_yields (placed : Placed sbi cluster) (count : Nat) (bound : index + steps = sbi.sectorsPerCluster)
    (bytes : List UInt8) (clusterOffset : Nat) :
    ∃ copied finalOffset, copied = min (count - bytes.length) (512 * steps - clusterOffset) ∧
      finalOffset ≤ clusterOffset ∧ (copied ≠ 0 → finalOffset = 0) ∧
      Yields (Represents sbi)
        (readSectors count (clusterToSector sbi cluster) steps index { bytes, clusterOffset }) volume
        (true,
          { bytes := bytes ++
              copyBytes (clusterBytes volume cluster) (512 * index + clusterOffset) copied,
            clusterOffset := finalOffset }) volume := by
  induction steps generalizing index bytes clusterOffset with
  | zero =>
    refine ⟨0, clusterOffset, by omega, le_rfl, fun some => (some rfl).elim, ?_⟩
    rw [copyBytes_nil, append_nil]
    exact .pure
  | succ steps ih =>
    by_cases done : count ≤ bytes.length
    · refine ⟨0, clusterOffset, by omega, le_rfl, fun some => (some rfl).elim, ?_⟩
      rw [copyBytes_nil, append_nil, readSectors, if_pos done]
      exact .pure
    · by_cases skip : 512 ≤ clusterOffset
      · obtain ⟨copied, finalOffset, isCopied, less, final, yields⟩ :=
          ih (show index + 1 + steps = _ by omega) bytes (clusterOffset - 512)
        obtain ⟨sameCount, samePlace⟩ := transferred_skip skip isCopied
        refine ⟨copied, finalOffset, sameCount, less.trans (Nat.sub_le ..), final, ?_⟩
        rw [readSectors, if_neg done, if_pos skip]
        rwa [samePlace] at yields
      · have inside : index < sbi.sectorsPerCluster := by omega
        obtain ⟨toCopy, isToCopy⟩ : ∃ toCopy, toCopy = min (512 - clusterOffset) (count - bytes.length) :=
          ⟨_, rfl⟩
        obtain ⟨copied, finalOffset, isCopied, less, final, yields⟩ :=
          ih (show index + 1 + steps = _ by omega)
            (bytes ++ copyBytes (volume.data cluster index) clusterOffset toCopy) 0
        rw [length_append, copyBytes_length, Nat.sub_add_eq] at isCopied
        have final : finalOffset = 0 := Nat.le_zero.mp less
        refine ⟨toCopy + copied, finalOffset, transferred_eq (not_le.mp skip) isToCopy isCopied,
          final ▸ Nat.zero_le _, fun _ => final, ?_⟩
        rw [readSectors, if_neg done, if_neg skip]
        refine .bind (bread_yields placed inside) ?_
        simp only [← isToCopy]
        have joined : bytes ++ copyBytes (volume.data cluster index) clusterOffset toCopy ++
            copyBytes (clusterBytes volume cluster) (512 * (index + 1) + 0) copied =
            bytes ++ copyBytes (clusterBytes volume cluster) (512 * index + clusterOffset)
              (toCopy + copied) := by
          rw [copyBytes_append, copyBytes_sector (by omega), append_assoc]
          by_cases none : copied = 0
          · rw [none, copyBytes_nil, copyBytes_nil]
          · rw [transferred_full (not_le.mp skip) isToCopy isCopied none]
        rwa [joined] at yields

theorem readClusters_done {count : Nat} (done : count ≤ state.bytes.length) (cluster : Nat) :
    Finishes (Represents sbi) (fun fuel => readClusters sbi count fuel cluster state) volume
      (true, state) volume := by
  refine .succ ?_
  simp only [readClusters, if_pos done]
  exact .pure

theorem readClusters_of_next (geometry : Geometry sbi) (placed : Placed sbi cluster) {count : Nat}
    (wanted : ¬ count ≤ state.bytes.length) (sectors : Yields (Represents sbi)
      (readSectors count (clusterToSector sbi cluster) sbi.sectorsPerCluster 0 state) volume
      (true, reached) volume) (finishes : Finishes (Represents sbi)
      (fun fuel => readClusters sbi count fuel (volume.fat cluster) reached) volume result volume) :
    Finishes (Represents sbi) (fun fuel => readClusters sbi count fuel cluster state) volume result
      volume := by
  refine .succ ?_
  simp only [readClusters, if_neg wanted, if_neg (not_le.mpr placed.lt_end)]
  refine .bind sectors (.bind (nextCluster_yields geometry placed.toIndexed volume) ?_)
  exact finishes

theorem readClusters_finishes (geometry : Geometry sbi) (wellFormed : Chains sbi volume.fat chains)
    (shape : chains head = before ++ cluster :: rest) (count : Nat)
    (inside : clusterOffset < sbi.sectorsPerCluster * 512) (bytes : List UInt8)
    (reaches : before.length * (sbi.sectorsPerCluster * 512) + clusterOffset + (count - bytes.length) ≤
      (chains head).length * (sbi.sectorsPerCluster * 512)) :
    ∃ finalOffset,
      Finishes (Represents sbi)
        (fun fuel => readClusters sbi count fuel cluster { bytes, clusterOffset }) volume
        (true, { bytes := bytes ++ copyBytes (fileBytes sbi volume (chains head))
                  (before.length * (sbi.sectorsPerCluster * 512) + clusterOffset) (count - bytes.length),
                 clusterOffset := finalOffset }) volume := by
  generalize left : rest.length = remaining
  induction remaining using Nat.strong_induction_on generalizing before cluster rest clusterOffset bytes with
  | _ remaining ih =>
    have placed := wellFormed.placed head cluster (by simp [shape])
    by_cases done : count ≤ bytes.length
    · refine ⟨clusterOffset, ?_⟩
      rw [Nat.sub_eq_zero_of_le done, copyBytes_nil, append_nil]
      exact readClusters_done done cluster
    · obtain ⟨copied, finalOffset, isCopied, -, final, sectors⟩ :=
        readSectors_yields placed count (Nat.zero_add _) bytes clusterOffset
      have fits : clusterOffset + copied ≤ sbi.sectorsPerCluster * 512 := by omega
      rw [final (by omega), Nat.zero_add, copyBytes_cluster shape fits] at sectors
      have length : (bytes ++ copyBytes (fileBytes sbi volume (chains head))
          (before.length * (sbi.sectorsPerCluster * 512) + clusterOffset) copied).length =
          bytes.length + copied := by
        rw [length_append, copyBytes_length]
      by_cases enough : count - bytes.length ≤ sbi.sectorsPerCluster * 512 - clusterOffset
      · have all : copied = count - bytes.length := by omega
        rw [← all]
        refine ⟨0, readClusters_of_next geometry placed done sectors (readClusters_done ?_ _)⟩
        change count ≤ (bytes ++ copyBytes _ _ _).length
        omega
      · cases rest with
        | nil =>
          rw [shape, length_snoc_mul] at reaches
          omega
        | cons next rest =>
          have shape' : chains head = (before ++ [cluster]) ++ next :: rest :=
            shape.trans (append_cons before cluster (next :: rest))
          have position : (before ++ [cluster]).length * (sbi.sectorsPerCluster * 512) + 0 =
              before.length * (sbi.sectorsPerCluster * 512) + clusterOffset + copied := by
            rw [length_snoc_mul]
            omega
          obtain ⟨finalOffset, finishes⟩ := ih rest.length (by simp [← left]) shape'
            (show 0 < sbi.sectorsPerCluster * 512 by omega) _ (by rw [length]; omega) rfl
          rw [← wellFormed.fat_link shape, position, length, append_assoc,
            show count - (bytes.length + copied) = count - bytes.length - copied by omega,
            ← copyBytes_append, Nat.add_sub_cancel' (by omega)] at finishes
          exact ⟨finalOffset, readClusters_of_next geometry placed done sectors finishes⟩

/-- The sectors of a chain have different 32-bit numbers. -/
theorem Chains.length_mul_le (wellFormed : Chains sbi fat chains) (positive : 0 < sbi.sectorsPerCluster) (head : Nat) :
    (chains head).length * sbi.sectorsPerCluster ≤ 2 ^ 32 := by
  have subset : (chains head).toFinset ⊆ Finset.Ico 2 (2 ^ 32 / sbi.sectorsPerCluster + 2) := by
    intro cluster listed
    have placed := wellFormed.placed head cluster (mem_toFinset.mp listed)
    have least := placed.two_le
    have fits := placed.fits
    have below : cluster - 2 + 1 ≤ 2 ^ 32 / sbi.sectorsPerCluster :=
      (Nat.le_div_iff_mul_le positive).mpr (by rw [Nat.add_mul]; omega)
    exact Finset.mem_Ico.mpr ⟨least, by omega⟩
  have few := Finset.card_le_card subset
  rw [toFinset_card_of_nodup (wellFormed.lists.nodup head), Nat.card_Ico] at few
  exact (Nat.mul_le_mul_right _ few).trans (Nat.div_mul_le_self ..)

theorem read_finishes (geometry : Geometry sbi) (wellFormed : Chains sbi volume.fat chains)
    (shape : chains inode.ino = inode.ino :: rest)
    (covered : inode.size ≤ (chains inode.ino).length * (sbi.sectorsPerCluster * 512)) (offset count : Nat) :
    Finishes (Represents sbi) (fun fuel => read sbi fuel inode offset count) volume
      (((min count (inode.size - offset) : Nat) : Int),
        copyBytes (fileBytes sbi volume (chains inode.ino)) offset (min count (inode.size - offset)))
      volume := by
  have positive := geometry.cluster_pos
  by_cases beyond : inode.size ≤ offset
  · rw [Nat.sub_eq_zero_of_le beyond, Nat.min_zero]
    simp only [read, if_pos beyond]
    exact .pure
  · obtain ⟨wanted, isWanted⟩ : ∃ wanted, wanted = min count (inode.size - offset) := ⟨_, rfl⟩
    have clipped : (if inode.size < offset + count then inode.size - offset else count) = wanted := by
      split <;> omega
    have enough : offset / (sbi.sectorsPerCluster * 512) ≤ rest.length := by
      rw [shape, length_cons] at covered
      have below : offset < (rest.length + 1) * (sbi.sectorsPerCluster * 512) := by omega
      exact Nat.lt_succ_iff.mp ((Nat.div_lt_iff_lt_mul (by omega)).mpr below)
    have steps : wrap 32 (offset / sbi.bytesPerCluster) = offset / (sbi.sectorsPerCluster * 512) := by
      have few := wellFormed.length_mul_le positive inode.ino
      have less := Nat.le_mul_of_pos_right (chains inode.ino).length positive
      rw [shape, length_cons] at few less
      rw [geometry.bytes]
      exact wrap_of_lt (by omega)
    have split := Nat.div_add_mod' offset (sbi.sectorsPerCluster * 512)
    obtain ⟨found, early, late, shape', length, skipped⟩ := skipClusters_yields geometry wellFormed
      (show chains inode.ino = [] ++ inode.ino :: rest from shape) enough
    rw [length_nil, Nat.zero_add] at length
    obtain ⟨finalOffset, finishes⟩ := readClusters_finishes geometry wellFormed shape' wanted
      (Nat.mod_lt offset (show 0 < sbi.sectorsPerCluster * 512 by omega)) []
      (by rw [length]; omega)
    rw [length, split, nil_append] at finishes
    rw [← isWanted]
    simp only [read, if_neg beyond, clipped, steps]
    refine .bind skipped ?_
    simp only [geometry.bytes]
    refine .bind finishes ?_
    simp only [copyBytes_length]
    exact .pure

end Rucix.Fs.Fat32
