import Rucix.Data.Effects
import Rucix.Fs.Fat32.Model

namespace Rucix.Fs.Fat32

open Rucix.Data

/-! More fuel does not change what an operation does. -/

variable (sbi : SbInfo)

theorem addEntry_mono (cluster : Nat) : FuelMono fun fuel => addEntry sbi entry fuel cluster := by
  intro fuel
  induction fuel generalizing cluster with
  | zero => exact .failure
  | succ fuel ih =>
    refine .bind (.refl) fun status => ?_
    cases status with
    | some status => exact .refl
    | none =>
      refine .bind (.refl) fun next => ?_
      cases next with
      | none => exact .refl
      | some next => exact ih next

theorem createEntry_mono : FuelMono fun fuel => createEntry sbi fuel dir name isDir := by
  intro fuel
  refine .bind (.refl) fun cluster => ?_
  split
  · exact .refl
  · exact .bind (addEntry_mono sbi dir fuel) fun _ => .refl

theorem create_mono : FuelMono fun fuel => create sbi fuel dir name memory := fun fuel =>
  .bind (createEntry_mono sbi fuel) fun _ => .refl

theorem mkdir_mono : FuelMono fun fuel => mkdir sbi fuel dir name memory := by
  intro fuel
  refine .bind (createEntry_mono sbi fuel) fun cluster => ?_
  cases cluster with
  | none => exact .refl
  | some cluster =>
    dsimp only
    split
    · exact .bind (addEntry_mono sbi cluster fuel) fun _ =>
        .bind (addEntry_mono sbi cluster fuel) fun _ => .refl
    · exact .refl

theorem updateClusters_mono (cluster : Nat) :
    FuelMono fun fuel => updateClusters sbi inode fuel cluster := by
  intro fuel
  induction fuel generalizing cluster with
  | zero => exact .failure
  | succ fuel ih =>
    simp only [updateClusters]
    split
    · exact .refl
    · refine .bind (.refl) fun status => ?_
      cases status with
      | some status => exact .refl
      | none => exact .bind (.refl) ih

theorem growInode_mono (dir : Option Nat) (inode : Inode) (offset : Nat) :
    FuelMono fun fuel => growInode sbi fuel dir inode offset := by
  intro fuel
  simp only [growInode]
  split
  · refine .bind ?_ fun _ => .refl
    cases dir with
    | none => exact .refl
    | some cluster => exact updateClusters_mono sbi cluster fuel
  · exact .refl

theorem seekCluster_mono (cluster targetPos : Nat) : FuelMono fun fuel => seekCluster sbi fuel cluster targetPos := by
  intro fuel
  induction fuel generalizing cluster targetPos with
  | zero => exact .failure
  | succ fuel ih =>
    simp only [seekCluster]
    split
    · exact .refl
    · refine .bind (.refl) fun next => ?_
      cases next with
      | none => exact .refl
      | some next => exact ih next _

theorem writeSectors_mono (sector steps index offsetInCluster : Nat) (state : WriteState) :
    FuelMono fun fuel => writeSectors sbi fuel dir bytes sector steps index offsetInCluster state := by
  intro fuel
  induction steps generalizing index offsetInCluster state with
  | zero => exact .refl
  | succ steps ih =>
    simp only [writeSectors]
    split
    · exact .refl
    · split
      · exact ih _ _ _
      · refine .bind (.refl) fun block => ?_
        cases block with
        | none => exact .refl
        | some block =>
          exact .bind (.refl) fun _ => .bind (growInode_mono sbi dir _ _ fuel) fun _ => ih _ _ _

theorem writeClusters_mono (cluster : Nat) (state : WriteState) :
    FuelMono fun fuel => writeClusters sbi dir bytes fuel cluster state := by
  intro fuel
  induction fuel generalizing cluster state with
  | zero => exact .failure
  | succ fuel ih =>
    simp only [writeClusters]
    split
    · exact .refl
    · refine .bind (writeSectors_mono sbi _ _ _ _ state fuel) fun result => ?_
      obtain ⟨ok, reached⟩ := result
      split
      · split
        · refine .bind (.refl) fun next => ?_
          cases next with
          | none => exact .refl
          | some next => exact ih next reached
        · exact .refl
      · exact .refl

theorem write_mono : FuelMono fun fuel => write sbi fuel inode dir bytes offset := by
  intro fuel
  simp only [write]
  split
  · exact .refl
  · refine .bind (seekCluster_mono sbi _ _ fuel) fun found => ?_
    cases found with
    | none => exact .refl
    | some found => exact .bind (writeClusters_mono sbi _ _ fuel) fun _ => .refl

theorem readClusters_mono (cluster : Nat) (state : ReadState) :
    FuelMono fun fuel => readClusters sbi count fuel cluster state := by
  intro fuel
  induction fuel generalizing cluster state with
  | zero => exact .failure
  | succ fuel ih =>
    simp only [readClusters]
    split
    · exact .refl
    · split
      · exact .refl
      · refine .bind (.refl) fun result => ?_
        obtain ⟨ok, reached⟩ := result
        split
        · exact .bind (.refl) fun next => ih next reached
        · exact .refl

theorem read_mono : FuelMono fun fuel => read sbi fuel inode offset count := by
  intro fuel
  simp only [read]
  split
  · exact .refl
  · refine .bind (.refl) fun found => ?_
    cases found with
    | none => exact .refl
    | some cluster => exact .bind (readClusters_mono sbi cluster _ fuel) fun _ => .refl

end Rucix.Fs.Fat32
