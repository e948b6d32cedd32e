import Rucix.Fs.Fat32.Directory

namespace Rucix.Fs.Fat32

open Rucix.Data List

/-! `fat32_write`. -/

variable {sbi : SbInfo} {volume after : Volume} {chains : Nat → List Nat} {cluster ino : Nat}
  {dir : Option Nat} {dirs : List Nat} {inv : Nat → Volume → Prop} {bytes : List UInt8}

/-- The clusters `dirs` of the parent directory. -/
def IsDirectory (chains : Nat → List Nat) (dir : Option Nat) (dirs : List Nat) : Prop :=
  ∀ head, dir = some head → chains head = dirs

/-- A property of the size of a file and of its directory that updating the
size keeps. -/
structure Keeper (sbi : SbInfo) (ino : Nat) (dir : Option Nat) (dirs : List Nat)
    (inv : Nat → Volume → Prop) : Prop where
  stable : ∀ {size : Nat} {volume after : Volume}, inv size volume →
    (∀ cluster ∈ dirs, after.data cluster = volume.data cluster) → inv size after
  update : ∀ {volume : Volume} {chains : Nat → List Nat} {old : Nat} (size : Nat),
    Chains sbi volume.fat chains → IsDirectory chains dir dirs → inv old volume →
    ∃ status after,
      Finishes (Represents sbi) (fun fuel => updateInodeSize sbi fuel { ino, size } dir) volume status
        after ∧
      after.fat = volume.fat ∧ after.top = volume.top ∧
      (∀ cluster, cluster ∉ dirs → after.data cluster = volume.data cluster) ∧ inv size after

theorem growInode_finishes (keeper : Keeper sbi ino dir dirs inv) (wellFormed : Chains sbi volume.fat chains)
    (directory : IsDirectory chains dir dirs) (holds : inv size volume) :
    ∃ after, Finishes (Represents sbi) (fun fuel => growInode sbi fuel dir { ino, size } offset) volume
        { ino, size := max size offset } after ∧
      after.fat = volume.fat ∧ after.top = volume.top ∧
      (∀ cluster, cluster ∉ dirs → after.data cluster = volume.data cluster) ∧
      inv (max size offset) after := by
  by_cases grows : size < offset
  · obtain ⟨status, after, finishes, kept⟩ := keeper.update offset wellFormed directory holds
    rw [max_eq_right grows.le]
    refine ⟨after, ?_, kept⟩
    simp only [growInode, if_pos grows]
    exact .bind finishes (.pure)
  · rw [max_eq_left (not_lt.mp grows)]
    refine ⟨volume, ?_, rfl, rfl, fun _ _ => rfl, holds⟩
    simp only [growInode, if_neg grows]
    exact .pure

theorem clusterBytes_setData (fits : offset + chunk.length ≤ 512) :
    clusterBytes (volume.setData cluster index ((volume.data cluster index).put offset chunk)) cluster =
      (clusterBytes volume cluster).put (512 * index + offset) chunk := by
  funext position
  simp only [clusterBytes]
  by_cases here : position / 512 = index
  · subst here
    rw [Volume.setData_self]
    simp only [Block.put]
    have reached : offset ≤ position % 512 ↔ 512 * (position / 512) + offset ≤ position := by omega
    have distance : position % 512 - offset = position - (512 * (position / 512) + offset) := by omega
    simp only [reached, distance, clusterBytes]
  · rw [Volume.setData_index_of_ne here, Block.put_outside (by omega)]
    rfl

def Separate (volume : Volume) (chain dirs : List Nat) : Prop :=
  ∀ cluster ∈ dirs, volume.fat cluster ≠ 0 ∧ cluster ∉ chain

theorem Separate.head_ne {dir found : Nat} (separate : Separate volume (chains ino) dirs)
    (directory : chains dir = dirs) (listed : found ∈ dirs) : dir ≠ ino := by
  intro same
  have outside := (separate found listed).2
  rw [← same, directory] at outside
  exact outside listed

theorem Separate.effect (separate : Separate volume (chains ino) dirs)
    (effect : Effect sbi ino dirs volume chains after afterChains) : Separate after (afterChains ino) dirs := by
  intro cluster listed
  obtain ⟨used, outside⟩ := separate cluster listed
  obtain ⟨extra, rfl, fresh⟩ := effect.grown
  refine ⟨effect.used cluster used, ?_⟩
  rw [Function.update_self, mem_append]
  rintro (early | late)
  · exact outside early
  · exact used (fresh cluster late)

theorem IsDirectory.effect (directory : IsDirectory chains dir dirs) (separate : Separate volume (chains ino) dirs)
    (listed : cluster ∈ chains ino) (effect : Effect sbi ino dirs volume chains after afterChains) :
    IsDirectory afterChains dir dirs := by
  intro head isDir
  have same := directory head isDir
  rw [effect.other_chain ?_, same]
  rintro rfl
  rw [same] at listed separate
  exact (separate cluster listed).2 listed

/-- `total` of the bytes have been written to a file from `position` on. -/
structure Written (sbi : SbInfo) (ino : Nat) (dirs : List Nat) (inv : Nat → Volume → Prop)
    (position offset : Nat) (bytes : List UInt8) (total size : Nat) (volume : Volume)
    (chains : Nat → List Nat) (finalSize : Nat) (after : Volume) (afterChains : Nat → List Nat) :
    Prop where
  bounded : total ≤ bytes.length
  size : finalSize = if total = 0 then size else max size (offset + total)
  effect : Effect sbi ino dirs volume chains after afterChains
  holds : inv finalSize after
  contents : fileBytes sbi after (afterChains ino) =
    (fileBytes sbi volume (chains ino)).put position (bytes.take total)
  reaches : total ≠ 0 → position + total ≤ (afterChains ino).length * (sbi.sectorsPerCluster * 512)

namespace Written

variable {offset more size finalSize : Nat}

theorem of_grows (keeper : Keeper sbi ino dir dirs inv) (separate : Separate volume (chains ino) dirs)
    (holds : inv size volume) (grows : Grows sbi ino volume chains after afterChains) (position offset : Nat)
    (bytes : List UInt8) :
    Written sbi ino dirs inv position offset bytes 0 size volume chains size after afterChains where
  bounded := Nat.zero_le _
  size := rfl
  effect := grows.weaken
  holds := keeper.stable holds fun cluster listed => grows.kept cluster (separate cluster listed).1
  contents := by rw [grows.bytes, take_zero, Block.put_nil]
  reaches some := (some rfl).elim

theorem trans (first : Written sbi ino dirs inv position offset bytes total size volume chains middleSize middle
      middleChains) (second : Written sbi ino dirs inv (position + total) (offset + total) (bytes.drop total) more
      middleSize middle middleChains finalSize after afterChains) :
    Written sbi ino dirs inv position offset bytes (total + more) size volume chains finalSize after
      afterChains where
  bounded := by
    have bounded := second.bounded
    rw [length_drop] at bounded
    have := first.bounded
    omega
  size := by
    rw [second.size, first.size]
    by_cases none : total = 0
    · simp [none]
    · by_cases last : more = 0
      · simp [last]
      · rw [if_neg last, if_neg none, if_neg (by omega), Nat.max_assoc,
          Nat.max_eq_right (Nat.le_add_right ..), Nat.add_assoc]
  effect := first.effect.trans second.effect
  holds := second.holds
  contents := by
    have length : (bytes.take total).length = total := length_take_of_le first.bounded
    rw [second.contents, first.contents, take_add, ← Block.put_append, length]
  reaches some := by
    by_cases last : more = 0
    · obtain ⟨extra, longer⟩ := second.effect.chain_eq
      have reaches := first.reaches (by omega)
      rw [longer, length_append, Nat.add_mul]
      omega
    · have reaches := second.reaches last
      omega

/-- Where nothing has been written does not matter. -/
theorem move (written : Written sbi ino dirs inv position offset bytes total size volume chains finalSize after
      afterChains) (same : total ≠ 0 → position = target) :
    Written sbi ino dirs inv target offset bytes total size volume chains finalSize after afterChains := by
  by_cases none : total = 0
  · refine { written with contents := ?_, reaches := fun some => absurd none some }
    rw [written.contents, none, take_zero, Block.put_nil, Block.put_nil]
  · rwa [← same none]

/-- One sector is stored, and the size follows. -/
theorem of_sector (geometry : Geometry sbi) (keeper : Keeper sbi ino dir dirs inv)
    (wellFormed : Chains sbi volume.fat chains) (directory : IsDirectory chains dir dirs)
    (separate : Separate volume (chains ino) dirs) (shape : chains ino = before ++ cluster :: rest)
    (holds : inv size volume) (inside : index < sbi.sectorsPerCluster) (positive : total ≠ 0)
    (bounded : total ≤ bytes.length) (fits : start + total ≤ 512) :
    ∃ after, Finishes (Represents sbi) (fun fuel => growInode sbi fuel dir { ino, size } (offset + total))
        (volume.setData cluster index ((volume.data cluster index).put start (bytes.take total)))
        { ino, size := max size (offset + total) } after ∧
      Written sbi ino dirs inv (before.length * (sbi.sectorsPerCluster * 512) + (512 * index + start)) offset bytes
        total size volume chains (max size (offset + total)) after chains := by
  let stored := volume.setData cluster index ((volume.data cluster index).put start (bytes.take total))
  have apart : cluster ∉ dirs := fun member => (separate cluster member).2 (by simp [shape])
  have untouched : ∀ other ∈ dirs, stored.data other = volume.data other := fun other listed =>
    Volume.setData_of_ne (ne_of_mem_of_not_mem listed apart)
  obtain ⟨after, resized, fat, top, others, kept⟩ :=
    growInode_finishes keeper (show Chains sbi stored.fat chains from wellFormed) directory
      (keeper.stable holds untouched)
  have same : ∀ other, other ≠ cluster → other ∉ dirs → after.data other = volume.data other :=
    fun other different outside => (others other outside).trans (Volume.setData_of_ne different)
  have length : (bytes.take total).length = total := length_take_of_le bounded
  refine ⟨after, resized, bounded, (if_neg positive).symm, .of_data wellFormed fat top fun other outside =>
    same other fun equal => outside (by simp [equal, shape]), kept, ?_, fun _ => ?_⟩
  · refine fileBytes_put geometry shape (wellFormed.lists.nodup ino) (by omega)
      (fun other member different => same other different fun isDir => (separate other isDir).2 member) ?_
    rw [← clusterBytes_setData (by rwa [length])]
    funext position
    simp only [clusterBytes, others cluster apart, stored]
  · rw [shape, append_cons, length_append, Nat.add_mul, length_snoc_mul]
    omega

end Written

section

variable (addressable : Addressable sbi) (keeper : Keeper sbi ino dir dirs inv)
  (wellFormed : Chains sbi volume.fat chains) (directory : IsDirectory chains dir dirs)
  (separate : Separate volume (chains ino) dirs)
include addressable keeper wellFormed directory separate

/-- The sectors of one cluster from `index` on: as many bytes are written as
are left and fit. -/
theorem writeSectors_finishes (shape : chains ino = before ++ cluster :: rest)
    (bound : index + steps = sbi.sectorsPerCluster) (holds : inv size volume) (bytes : List UInt8)
    (offsetInCluster written targetPos offset : Nat) :
    ∃ count finalPos finalSize after,
      count = min (bytes.length - written) (512 * steps - offsetInCluster) ∧
      (count = 0 ∧ finalPos = targetPos ∨ finalPos = 0) ∧
      Finishes (Represents sbi)
        (fun fuel => writeSectors sbi fuel dir bytes (clusterToSector sbi cluster) steps index
          offsetInCluster { written, targetPos, offset, inode := { ino, size } }) volume
        (true, { written := written + count, targetPos := finalPos, offset := offset + count,
                 inode := { ino, size := finalSize } }) after ∧
      Written sbi ino dirs inv (before.length * (sbi.sectorsPerCluster * 512) + (512 * index + offsetInCluster))
        offset (bytes.drop written) count size volume chains finalSize after chains := by
  induction steps generalizing index offsetInCluster written targetPos offset size volume with
  | zero =>
    exact ⟨0, targetPos, size, volume, by omega, .inl ⟨rfl, rfl⟩, .pure,
      .of_grows keeper separate holds (.refl wellFormed) ..⟩
  | succ steps ih =>
    by_cases done : bytes.length ≤ written
    · refine ⟨0, targetPos, size, volume, by omega, .inl ⟨rfl, rfl⟩, ?_,
        .of_grows keeper separate holds (.refl wellFormed) ..⟩
      simp only [writeSectors, if_pos done]
      exact .pure
    · by_cases skip : 512 ≤ offsetInCluster
      · obtain ⟨count, finalPos, finalSize, after, isCount, moved, finishes, result⟩ := ih wellFormed separate
          (show index + 1 + steps = _ by omega) holds (offsetInCluster - 512) written targetPos offset
        obtain ⟨sameCount, samePlace⟩ := transferred_skip skip isCount
        refine ⟨count, finalPos, finalSize, after, sameCount, moved, ?_, samePlace ▸ result⟩
        simp only [writeSectors, if_neg done, if_pos skip]
        exact finishes
      · have inside : index < sbi.sectorsPerCluster := by omega
        obtain ⟨toWrite, isToWrite⟩ : ∃ toWrite,
          toWrite = min (512 - offsetInCluster) (bytes.length - written) := ⟨_, rfl⟩
        have bounded : toWrite ≤ (bytes.drop written).length := by rw [length_drop]; omega
        obtain ⟨grown, resized, first⟩ := Written.of_sector addressable.toGeometry keeper wellFormed directory
          separate shape holds inside (show toWrite ≠ 0 by omega) bounded
          (show offsetInCluster + toWrite ≤ 512 by omega)
        obtain ⟨count, finalPos, finalSize, after, isCount, moved, finishes, second⟩ :=
          ih first.effect.wellFormed (separate.effect first.effect) (show index + 1 + steps = _ by omega)
            first.holds 0 (written + toWrite) 0 (offset + toWrite)
        rw [Nat.sub_add_eq] at isCount
        rw [← drop_drop] at second
        refine ⟨toWrite + count, finalPos, finalSize, after,
          transferred_eq (not_le.mp skip) isToWrite isCount, .inr (moved.elim And.right id), ?_,
          first.trans (second.move fun some => ?_)⟩
        · simp only [writeSectors, if_neg done, if_neg skip]
          rw [← Nat.add_assoc, ← Nat.add_assoc]
          refine .bind (bread_yields (wellFormed.placed ino cluster (by simp [shape])) inside) ?_
          refine .bind (sync_yields addressable.toGeometry (wellFormed.placed ino cluster (by simp [shape]))
            inside volume) ?_
          rw [← isToWrite]
          exact .bind resized finishes
        · rw [transferred_full (not_le.mp skip) isToWrite isCount some, ← Nat.add_assoc]

/-- The bytes from `written` on are written, or the file fills all that was left
of the volume. -/
theorem writeClusters_finishes (shape : chains ino = before ++ cluster :: rest)
    (inside : targetPos < sbi.sectorsPerCluster * 512) (bounded : written ≤ bytes.length) (holds : inv size volume)
    (offset : Nat) :
    ∃ total finalSize state after afterChains,
      Finishes (Represents sbi)
        (fun fuel => writeClusters sbi dir bytes fuel cluster
          { written, targetPos, offset, inode := { ino, size } }) volume
        (((written + total : Nat) : Int), state) after ∧
      state.inode = { ino, size := finalSize } ∧
      Written sbi ino dirs inv (before.length * (sbi.sectorsPerCluster * 512) + targetPos) offset
        (bytes.drop written) total size volume chains finalSize after afterChains ∧
      (written + total = bytes.length ∨
        (written + total < bytes.length ∧ freeClusters sbi after.fat = ∅ ∧
          (afterChains ino).length * (sbi.sectorsPerCluster * 512) ≤
            before.length * (sbi.sectorsPerCluster * 512) + targetPos + total)) := by
  generalize left : bytes.length - written = remaining
  induction remaining using Nat.strong_induction_on generalizing volume chains cluster before rest written
    targetPos offset size with
  | _ remaining ih =>
    by_cases done : bytes.length ≤ written
    · refine ⟨0, size, { written, targetPos, offset, inode := { ino, size } }, volume, chains, .succ ?_, rfl,
        .of_grows keeper separate holds (.refl wellFormed) .., .inl (by omega)⟩
      simp only [writeClusters, if_pos done]
      exact .pure
    · have listed : cluster ∈ chains ino := by simp [shape]
      obtain ⟨count, finalPos, finalSize, filled, isCount, moved, sectors, first⟩ :=
        writeSectors_finishes addressable keeper wellFormed directory separate shape (Nat.zero_add _) holds
          bytes targetPos written targetPos offset
      have positive : count ≠ 0 := by omega
      obtain rfl := moved.resolve_left fun none => positive none.1
      rw [Nat.zero_add] at first
      let reached : WriteState :=
        { written := written + count, targetPos := 0, offset := offset + count,
          inode := { ino, size := finalSize } }
      by_cases more : written + count < bytes.length
      · rcases nextOrAlloc_grows addressable first.effect.wellFormed shape with
          ⟨rfl, full, failed⟩ | ⟨next, behind, middle, middleChains, found, grows, shape'⟩
        · refine ⟨count, finalSize, reached, filled, chains, .succ ?_, rfl, first,
            .inr ⟨more, full, ?_⟩⟩
          · simp only [writeClusters, if_neg done]
            refine .bind sectors ?_
            simp only [if_pos more]
            exact .bind failed (.pure)
          · rw [shape, length_snoc_mul]
            omega
        · have second := first.trans (.of_grows keeper (separate.effect first.effect) first.holds grows ..)
          have position : (before ++ [cluster]).length * (sbi.sectorsPerCluster * 512) + 0 =
              before.length * (sbi.sectorsPerCluster * 512) + targetPos + count := by
            rw [length_snoc_mul]
            omega
          obtain ⟨total, finalSize, state, after, afterChains, finishes, inode, third, outcome⟩ :=
            ih (bytes.length - (written + count)) (by omega) second.effect.wellFormed
              (directory.effect separate listed second.effect) (separate.effect second.effect) shape'
              (show 0 < sbi.sectorsPerCluster * 512 by omega) more.le second.holds (offset + count) rfl
          rw [position] at third outcome
          rw [← drop_drop] at third
          refine ⟨count + total, finalSize, state, after, afterChains, .succ ?_, inode, second.trans third,
            ?_⟩
          · simp only [writeClusters, if_neg done]
            refine .bind sectors ?_
            simp only [if_pos more]
            refine .bind found ?_
            rw [← Nat.add_assoc]
            exact finishes
          · rwa [← Nat.add_assoc, ← Nat.add_assoc]
      · refine ⟨count, finalSize, reached, filled, chains, .succ ?_, rfl, first, .inl (by omega)⟩
        simp only [writeClusters, if_neg done]
        refine .bind sectors ?_
        simp only [if_neg more]
        exact .pure

theorem write_finishes (shape : chains ino = ino :: rest) (nonempty : bytes.length ≠ 0)
    (holds : inv size volume) (offset : Nat) :
    ∃ status total finalSize after afterChains,
      Finishes (Represents sbi) (fun fuel => write sbi fuel { ino, size } dir bytes offset) volume
        (status, { ino, size := finalSize }) after ∧
      Written sbi ino dirs inv (wrap 32 offset) offset bytes total size volume chains finalSize after
        afterChains ∧
      (status = bytes.length ∧ total = bytes.length ∨
        (total < bytes.length ∧ freeClusters sbi after.fat = ∅ ∧
          (afterChains ino).length * (sbi.sectorsPerCluster * 512) ≤ wrap 32 offset + total)) := by
  obtain ⟨result, middle, middleChains, sought, grows, outcome⟩ :=
    seekCluster_finishes addressable wellFormed (show chains ino = [] ++ ino :: rest from shape)
  simp only [length_nil, Nat.zero_mul, Nat.zero_add] at outcome
  have first := Written.of_grows keeper separate holds grows (wrap 32 offset) offset bytes
  rcases outcome with ⟨rfl, full, filled⟩ | ⟨found, position, early, late, rfl, inside, shape', isPosition⟩
  · refine ⟨-1, 0, size, middle, middleChains, ?_, first, .inr ⟨by omega, full, filled⟩⟩
    simp only [write, if_neg nonempty]
    exact .bind sought (.pure)
  · obtain ⟨total, finalSize, state, after, afterChains, finishes, inode, second, complete⟩ :=
      writeClusters_finishes addressable keeper first.effect.wellFormed
        (directory.effect separate (show ino ∈ chains ino by simp [shape]) first.effect)
        (separate.effect first.effect) shape' inside (Nat.zero_le bytes.length) first.holds offset
    rw [isPosition] at second complete
    rw [Nat.zero_add] at finishes complete
    have both := first.trans second
    rw [Nat.zero_add] at both
    refine ⟨total, total, finalSize, after, afterChains, ?_, both, ?_⟩
    · simp only [write, if_neg nonempty]
      refine .bind sought (.bind finishes ?_)
      rw [← inode]
      exact .pure
    · exact complete.imp_left fun all => ⟨congrArg _ all, all⟩

end

end Rucix.Fs.Fat32
