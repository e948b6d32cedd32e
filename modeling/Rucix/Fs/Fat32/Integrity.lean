import Rucix.Data.Run
import Rucix.Fs.Fat32.Create
import Rucix.Fs.Fat32.Fuel
import Rucix.Fs.Fat32.Write

namespace Rucix.Fs.Fat32

open Rucix.Data List

/-! The FAT over whole runs of `fat32_create`, `fat32_mkdir` and `fat32_write`. -/

structure FsState where
  device : Device
  files : List Nat
  dirs : List Nat

inductive FsOp where
  | create (dir : Nat) (name : CString) (memory : Bool)
  | mkdir (dir : Nat) (name : CString) (memory : Bool)
  | write (inode : Inode) (dir : Option Nat) (bytes : List UInt8) (offset : Nat)

def FsOp.Enabled (state : FsState) : FsOp → Prop
  | .create dir _ _ => dir ∈ state.dirs
  | .mkdir dir _ _ => dir ∈ state.dirs
  | .write inode dir _ _ => inode.ino ∈ state.files ∧ ∀ parent, dir = some parent → parent ∈ state.dirs

/-- A call that returns.  A file or directory is new when its cluster has been
entered into the parent directory. -/
inductive FsStep (sbi : SbInfo) (state : FsState) : FsOp → FsState → Prop where
  | create {dir : Nat} {name : CString} {memory : Bool} {fuel : Nat} {new : Option Nat}
      {entered device : Device} {value : Int × Option Inode}
      (enabled : dir ∈ state.dirs)
      (begun : (createEntry sbi fuel dir name false).run state.device = some (new, entered))
      (returned : (create sbi fuel dir name memory).run state.device = some (value, device)) :
      FsStep sbi state (.create dir name memory)
        { device, files := new.toList ++ state.files, dirs := state.dirs }
  | mkdir {dir : Nat} {name : CString} {memory : Bool} {fuel : Nat} {new : Option Nat}
      {entered device : Device} {value : Int × Option Inode}
      (enabled : dir ∈ state.dirs)
      (begun : (createEntry sbi fuel dir name true).run state.device = some (new, entered))
      (returned : (mkdir sbi fuel dir name memory).run state.device = some (value, device)) :
      FsStep sbi state (.mkdir dir name memory)
        { device, files := state.files, dirs := new.toList ++ state.dirs }
  | write {inode : Inode} {dir : Option Nat} {bytes : List UInt8} {offset fuel : Nat} {device : Device}
      {value : Int × Inode}
      (enabled : inode.ino ∈ state.files) (parent : ∀ parent, dir = some parent → parent ∈ state.dirs)
      (returned : (write sbi fuel inode dir bytes offset).run state.device = some (value, device)) :
      FsStep sbi state (.write inode dir bytes offset) { state with device }

def Device.fatLink (sbi : SbInfo) (device : Device) (cluster : Nat) : Nat :=
  device.fatEntry sbi cluster % 2 ^ 28

/-- Each file and directory heads a chain, the chains are separate, and all
other entries are 0. -/
structure FatWellFormed (sbi : SbInfo) (state : FsState) (chains : Nat → List Nat) : Prop where
  heads : ∀ head, chains head ≠ [] ↔ head ∈ state.files ∨ head ∈ state.dirs
  separate : ∀ head ∈ state.files, head ∉ state.dirs
  starts : ∀ head cluster, (chains head).head? = some cluster → cluster = head
  lists : Lists (nextOf (state.device.fatLink sbi)) (fun head => (chains head).head?) chains
  entries : ∀ head, ∀ cluster ∈ chains head, 2 ≤ cluster ∧ cluster < fatEntries sbi
  free : ∀ cluster, 2 ≤ cluster → cluster < fatEntries sbi → (∀ head, cluster ∉ chains head) →
    state.device.fatLink sbi cluster = 0

def Device.volume (sbi : SbInfo) (device : Device) : Volume where
  fat := device.fatLink sbi
  top cluster := device.fatEntry sbi cluster / 2 ^ 28
  data := device.clusterSector sbi

variable {after : FsState} {volume : Volume} {chains : Nat → List Nat}

theorem Device.Reliable.represents (reliable : device.Reliable) : Represents sbi device (device.volume sbi) := by
  refine ⟨reliable, fun cluster _ => ?_, fun cluster _ => Nat.mod_lt _ (by decide), fun _ _ _ _ => rfl⟩
  exact (Nat.div_add_mod' _ _).symm

theorem Represents.fatLink_eq (represents : Represents sbi device volume) (entry : cluster < fatEntries sbi) :
    device.fatLink sbi cluster = volume.fat cluster := by
  have small := represents.fat_lt cluster entry
  rw [Device.fatLink, represents.entry cluster entry]
  omega

theorem Represents.top_eq (represents : Represents sbi device volume) (entry : cluster < fatEntries sbi) :
    device.fatEntry sbi cluster / 2 ^ 28 = volume.top cluster := by
  have small := represents.fat_lt cluster entry
  rw [represents.entry cluster entry]
  omega

/-- The volume of a state, with the chains of its files and directories. -/
structure Holds (sbi : SbInfo) (state : FsState) (volume : Volume) (chains : Nat → List Nat) : Prop where
  represents : Represents sbi state.device volume
  wellFormed : Chains sbi volume.fat chains
  heads : ∀ head, chains head ≠ [] ↔ head ∈ state.files ∨ head ∈ state.dirs
  separate : ∀ head ∈ state.files, head ∉ state.dirs

theorem FatWellFormed.holds (wellFormed : FatWellFormed sbi state chains) (reliable : state.device.Reliable)
    (placed : ∀ head, ∀ cluster ∈ chains head, Placed sbi cluster) :
    Holds sbi state (state.device.volume sbi) chains :=
  ⟨reliable.represents, ⟨wellFormed.lists, wellFormed.starts, placed, wellFormed.free⟩, wellFormed.heads,
    wellFormed.separate⟩

theorem Keeper.unconditional (geometry : Geometry sbi) (nonempty : ∀ parent, dir = some parent → dirs ≠ []) :
    Keeper sbi ino dir dirs fun _ _ => True where
  stable _ _ := trivial
  update := by
    intro volume chains _ size wellFormed directory _
    cases dir with
    | none => exact ⟨-1, volume, .pure, rfl, rfl, fun _ _ => rfl, trivial⟩
    | some parent =>
      have isDirectory := directory parent rfl
      have used : chains parent ≠ [] := isDirectory ▸ nonempty parent rfl
      obtain ⟨status, after, finishes, fat, top, others⟩ :=
        updateClusters_finishes geometry wellFormed { ino, size } used
      exact ⟨status, after, finishes, fat, top, isDirectory ▸ others, trivial⟩

theorem write_keeps (addressable : Addressable sbi) (wellFormed : Chains sbi volume.fat chains)
    (used : chains inode.ino ≠ []) (parents : ∀ parent, dir = some parent → chains parent ≠ [] ∧ parent ≠ inode.ino)
    (offset : Nat) : ∃ value after afterChains,
      Finishes (Represents sbi) (fun fuel => write sbi fuel inode dir bytes offset) volume value after ∧
      Keeps sbi volume chains after afterChains none := by
  by_cases empty : bytes.length = 0
  · refine ⟨(0, inode), volume, chains, ?_, .refl wellFormed rfl rfl⟩
    simp only [write, if_pos empty]
    exact .pure
  · obtain ⟨dirs, directory, nonempty, separate⟩ : ∃ dirs, IsDirectory chains dir dirs ∧
        (∀ parent, dir = some parent → dirs ≠ []) ∧ Separate volume (chains inode.ino) dirs := by
      cases dir with
      | none => exact ⟨[], by simp [IsDirectory], by simp, by simp [Separate]⟩
      | some parent =>
        obtain ⟨inUse, different⟩ := parents parent rfl
        refine ⟨chains parent, fun head same => by rw [Option.some.inj same], fun _ _ => inUse,
          fun cluster listed => ⟨wellFormed.fat_ne_zero listed, fun also => ?_⟩⟩
        exact wellFormed.lists.ne_of_mem different listed also rfl
    obtain ⟨rest, shape⟩ := wellFormed.shape used
    obtain ⟨status, total, finalSize, after, afterChains, finishes, written, -⟩ :=
      write_finishes addressable (.unconditional addressable.toGeometry nonempty) wellFormed directory
        separate shape empty trivial offset
    exact ⟨_, after, afterChains, finishes, .of_effect written.effect used⟩

structure Continues (sbi : SbInfo) (state : FsState) (volume : Volume) (chains : Nat → List Nat)
    (after : FsState) : Prop where
  intro ::
  holds : ∃ afterVolume afterChains, Holds sbi after afterVolume afterChains ∧
    (∀ head, chains head <+: afterChains head) ∧ afterVolume.top = volume.top
  files : state.files ⊆ after.files
  dirs : state.dirs ⊆ after.dirs

namespace Holds

variable (holds : Holds sbi state volume chains)
include holds

theorem fatWellFormed : FatWellFormed sbi state chains := by
  refine ⟨holds.heads, holds.separate, holds.wellFormed.starts, ?_,
    fun head cluster listed => ⟨(holds.wellFormed.placed head cluster listed).two_le,
      (holds.wellFormed.placed head cluster listed).lt_entries⟩, fun cluster two entry unlisted => ?_⟩
  · refine holds.wellFormed.lists.congr fun place cluster listed => ?_
    rw [nextOf, nextOf, holds.represents.fatLink_eq (holds.wellFormed.placed place cluster listed).lt_entries]
  · rw [holds.represents.fatLink_eq entry]
    exact holds.wellFormed.free cluster two entry unlisted

theorem parent_used (isFile : ino ∈ state.files)
    (isDir : ∀ parent, dir = some parent → parent ∈ state.dirs) :
    ∀ parent, dir = some parent → chains parent ≠ [] ∧ parent ≠ ino := by
  intro parent isParent
  refine ⟨(holds.heads parent).mpr (.inr (isDir parent isParent)), ?_⟩
  rintro rfl
  exact holds.separate parent isFile (isDir parent isParent)

theorem continues (keeps : Keeps sbi volume chains final afterChains new)
    (represents : Represents sbi device final)
    (entered : file = new ∧ directory = none ∨ file = none ∧ directory = new) :
    Continues sbi state volume chains
      { device, files := file.toList ++ state.files, dirs := directory.toList ++ state.dirs } := by
  refine ⟨⟨final, afterChains, ⟨represents, keeps.wellFormed, fun head => ?_, fun head => ?_⟩, keeps.kept,
    keeps.top⟩, subset_append_right .., subset_append_right ..⟩
  · rw [keeps.heads, holds.heads]
    rcases entered with ⟨rfl, rfl⟩ | ⟨rfl, rfl⟩ <;> simp <;> tauto
  · have fresh : new = some head → ¬(head ∈ state.files ∨ head ∈ state.dirs) :=
      fun isNew listed => (holds.heads head).mpr listed (keeps.fresh head isNew)
    have separate := holds.separate head
    rcases entered with ⟨rfl, rfl⟩ | ⟨rfl, rfl⟩ <;> simp <;> tauto

variable (addressable : Addressable sbi)
include addressable

theorem step (step : FsStep sbi state op after) : Continues sbi state volume chains after := by
  cases step with
  | create enabled begun returned =>
    rename_i dir name memory fuel new entered device value
    obtain ⟨begins, _, _, final, afterChains, entry, finishes, keeps⟩ := create_keeps addressable
      holds.wellFormed ((holds.heads dir).mpr (.inr enabled))
    obtain ⟨rfl, -⟩ := entry.result_eq (createEntry_mono sbi) holds.represents begun
    obtain ⟨-, represents⟩ := finishes.result_eq (create_mono sbi) holds.represents
      returned
    exact holds.continues keeps represents (.inl ⟨rfl, rfl⟩)
  | mkdir enabled begun returned =>
    rename_i dir name memory fuel new entered device value
    obtain ⟨begins, _, _, final, afterChains, entry, finishes, keeps⟩ := mkdir_keeps addressable
      holds.wellFormed ((holds.heads dir).mpr (.inr enabled))
    obtain ⟨rfl, -⟩ := entry.result_eq (createEntry_mono sbi) holds.represents begun
    obtain ⟨-, represents⟩ := finishes.result_eq (mkdir_mono sbi) holds.represents
      returned
    exact holds.continues keeps represents (.inr ⟨rfl, rfl⟩)
  | write enabled parent returned =>
    rename_i inode dir bytes offset fuel device value
    obtain ⟨_, final, afterChains, finishes, keeps⟩ := write_keeps addressable holds.wellFormed
      ((holds.heads inode.ino).mpr (.inl enabled)) (holds.parent_used enabled parent) offset
    obtain ⟨-, represents⟩ := finishes.result_eq (write_mono sbi)
      holds.represents returned
    exact holds.continues keeps represents (.inl ⟨rfl, rfl⟩)

theorem returns (enabled : op.Enabled state) : ∃ after, FsStep sbi state op after := by
  cases op with
  | create dir name memory =>
    obtain ⟨_, _, _, _, _, entry, finishes, -⟩ := create_keeps addressable holds.wellFormed
      ((holds.heads dir).mpr (.inr enabled))
    obtain ⟨_, _, _, begun, returned⟩ := entry.both finishes holds.represents
    exact ⟨_, .create enabled begun returned⟩
  | mkdir dir name memory =>
    obtain ⟨_, _, _, _, _, entry, finishes, -⟩ := mkdir_keeps addressable holds.wellFormed
      ((holds.heads dir).mpr (.inr enabled))
    obtain ⟨_, _, _, begun, returned⟩ := entry.both finishes holds.represents
    exact ⟨_, .mkdir enabled begun returned⟩
  | write inode dir bytes offset =>
    obtain ⟨isFile, parent⟩ := enabled
    obtain ⟨_, final, _, finishes, -⟩ := write_keeps addressable holds.wellFormed
      ((holds.heads inode.ino).mpr (.inl isFile)) (holds.parent_used isFile parent) offset
    obtain ⟨_, bound, ran, -⟩ := finishes state.device holds.represents
    exact ⟨_, .write isFile parent (ran bound le_rfl)⟩

end Holds

theorem addressable_run_fat_intact (addressable : Addressable sbi) {initial final : FsState} {trace : List FsOp}
    (reliable : initial.device.Reliable) (wellFormed : FatWellFormed sbi initial chains)
    (placed : ∀ head, ∀ cluster ∈ chains head, Placed sbi cluster) (run : Run (FsStep sbi) initial trace final) :
    (∃ afterChains, FatWellFormed sbi final afterChains ∧ ∀ head, chains head <+: afterChains head) ∧
      initial.files ⊆ final.files ∧ initial.dirs ⊆ final.dirs ∧
      (∀ cluster, cluster < fatEntries sbi →
        final.device.fatEntry sbi cluster / 2 ^ 28 = initial.device.fatEntry sbi cluster / 2 ^ 28) ∧
      ∀ op, op.Enabled final → ∃ after, FsStep sbi final op after := by
  have start := wellFormed.holds reliable placed
  have reached : Continues sbi initial (initial.device.volume sbi) chains final := by
    refine run.invariant ⟨⟨_, chains, start, fun _ => prefix_rfl, rfl⟩, fun _ => id, fun _ => id⟩ ?_
    intro before op after earlier step
    obtain ⟨⟨volume, beforeChains, holds, kept, top⟩, files, dirs⟩ := earlier
    obtain ⟨⟨afterVolume, afterChains, holds', kept', top'⟩, files', dirs'⟩ := holds.step addressable step
    exact ⟨⟨afterVolume, afterChains, holds', fun head => (kept head).trans (kept' head), top'.trans top⟩,
      List.Subset.trans files files', List.Subset.trans dirs dirs'⟩
  obtain ⟨⟨volume, afterChains, holds, kept, top⟩, files, dirs⟩ := reached
  refine ⟨⟨afterChains, holds.fatWellFormed, kept⟩, files, dirs, fun cluster entry => ?_,
    fun op enabled => holds.returns addressable enabled⟩
  rw [holds.represents.top_eq entry, top]
  rfl

def singleChains (isHead : Nat → Bool) (head : Nat) : List Nat := if isHead head then [head] else []

theorem FatWellFormed.of_single (heads : ∀ head, isHead head = true ↔ head ∈ state.files ∨ head ∈ state.dirs)
    (separate : ∀ head ∈ state.files, head ∉ state.dirs)
    (entries : ∀ head, isHead head → 2 ≤ head ∧ head < fatEntries sbi ∧
      endOfChain ≤ state.device.fatLink sbi head)
    (free : ∀ cluster, cluster < fatEntries sbi → ¬ isHead cluster → 2 ≤ cluster →
      state.device.fatLink sbi cluster = 0) : FatWellFormed sbi state (singleChains isHead) := by
  have member : ∀ head cluster, cluster ∈ singleChains isHead head ↔ isHead head ∧ cluster = head := by
    intro head cluster
    by_cases used : isHead head <;> simp [singleChains]
  refine ⟨fun head => ?_, separate, fun head cluster first => ?_, ⟨fun head => ?_, fun head => ?_, ?_⟩,
    fun head cluster listed => ?_, fun cluster two entry unlisted => ?_⟩
  · rw [← heads]
    simp [singleChains]
  · exact ((member head cluster).mp (mem_of_mem_head? first)).2
  · by_cases used : isHead head
    · have last : nextOf (state.device.fatLink sbi) head = none := if_pos (entries head used).2.2
      simp [singleChains, used, Linked, last]
    · simp [singleChains, used, Linked]
  · by_cases used : isHead head <;> simp [singleChains, used]
  · intro head other cluster first second
    rw [← ((member head cluster).mp first).2, ((member other cluster).mp second).2]
  · obtain ⟨used, rfl⟩ := (member head cluster).mp listed
    exact ⟨(entries cluster used).1, (entries cluster used).2.1⟩
  · exact free cluster entry (fun used => unlisted cluster ((member cluster cluster).mpr ⟨used, rfl⟩)) two

theorem singleChains_placed (placed : ∀ head, isHead head → Placed sbi head) :
    ∀ head, ∀ cluster ∈ singleChains isHead head, Placed sbi cluster := by
  intro head cluster listed
  by_cases used : isHead head
  · simp only [singleChains, used, if_true, mem_singleton] at listed
    exact listed ▸ placed head used
  · simp [singleChains, used] at listed

/-- One sector of FAT and clusters of one sector; the root directory is
cluster 2. -/
def smallInfo : SbInfo :=
  { fatStartSector := 1, dataStartSector := 2, rootCluster := 2, sectorsPerCluster := 1,
    bytesPerCluster := 512, fatSize := 1, totalSectors := 10 }

def smallDisk : Device :=
  { sectors := Function.update (fun _ => Block.zero) 1 (Block.zero.put32 8 0x0FFFFFFF)
    failing := fun _ => false
    reads := 0 }

theorem smallInfo_addressable : Addressable smallInfo := by
  refine ⟨⟨by decide, by decide, by decide, by decide⟩, fun cluster two bound => ?_⟩
  have bound : cluster < 10 := bound
  refine ⟨⟨?_, ?_⟩, two, ?_⟩
  · change cluster < 128
    omega
  · change cluster < 0x0FFFFFF8
    omega
  · change 2 + (cluster - 2) * 1 + 1 ≤ 2 ^ 32
    omega

def smallState : FsState := { device := smallDisk, files := [], dirs := [2] }

theorem smallState_wellFormed : FatWellFormed smallInfo smallState (singleChains (· = 2)) := by
  have entries : ∀ cluster : Fin 128, smallDisk.fatLink smallInfo cluster =
      if cluster.val = 2 then 0x0FFFFFFF else 0 := by decide +kernel
  refine .of_single (by simp [smallState]) nofun (fun head isRoot => ?_) fun cluster entry notRoot _ => ?_
  · cases of_decide_eq_true isRoot
    exact ⟨le_rfl, by decide, by decide +kernel⟩
  · have value := entries ⟨cluster, entry⟩
    rwa [if_neg (by simpa using notRoot)] at value

theorem smallState_placed : ∀ head, ∀ cluster ∈ singleChains (· = 2) head, Placed smallInfo cluster :=
  singleChains_placed fun _ isRoot =>
    of_decide_eq_true isRoot ▸ smallInfo_addressable.allocatable 2 le_rfl (by decide)

def smallName : CString := ⟨[65], by decide⟩

/-- A file is created and written. -/
theorem addressable_run_fat_intact_small : ∃ final, Run (FsStep smallInfo) smallState
        [.create 2 smallName true, .write { ino := 3, size := 0 } (some 2) [7] 0] final ∧
      final.files = [3] ∧
      ∃ afterChains, FatWellFormed smallInfo final afterChains ∧
        ∀ head, singleChains (· = 2) head <+: afterChains head := by
  obtain ⟨⟨_, entered⟩, begun, rfl⟩ := Option.map_eq_some_iff.mp (show
    ((createEntry smallInfo 2 2 smallName false).run smallDisk).map Prod.fst = some (some 3) by
      decide +kernel)
  obtain ⟨⟨value, device⟩, returned⟩ := Option.isSome_iff_exists.mp (show
    ((create smallInfo 2 2 smallName true).run smallDisk).isSome by decide +kernel)
  have step : FsStep smallInfo smallState (.create 2 smallName true) _ :=
    .create (mem_singleton_self 2) begun returned
  have created : Run (FsStep smallInfo) smallState [.create 2 smallName true]
      { device, files := [3], dirs := [2] } := .snoc .nil step
  have reliable : smallState.device.Reliable := fun _ => rfl
  have intact := addressable_run_fat_intact smallInfo_addressable reliable smallState_wellFormed
    smallState_placed created
  obtain ⟨final, written⟩ := intact.2.2.2.2 (.write { ino := 3, size := 0 } (some 2) [7] 0)
    ⟨mem_singleton_self 3, by simp⟩
  have run := created.snoc written
  have intact := addressable_run_fat_intact smallInfo_addressable reliable smallState_wellFormed smallState_placed run
  refine ⟨final, run, ?_, intact.1⟩
  cases written
  rfl

/-- Afterwards a sector is zero, or it is none of the cluster and has been kept. -/
theorem clearSectors_run (reliable : device.Reliable) (steps index : Nat) :
    ∃ after, (clearSectors sector steps index).run device = some ((), after) ∧ after.Reliable ∧
      ∀ other, after.sectors other = Block.zero ∨ after.sectors other = device.sectors other ∧
        ∀ position, index ≤ position → position < index + steps → other ≠ wrap 32 (sector + position) := by
  induction steps generalizing device index with
  | zero => exact ⟨device, rfl, reliable, fun _ => .inr ⟨rfl, fun position low high => by omega⟩⟩
  | succ steps ih =>
    let stored : Device :=
      Device.store { device with reads := device.reads + 1 } (wrap 32 (sector + index)) Block.zero
    obtain ⟨after, ran, reliable', outcome⟩ := ih (show stored.Reliable from reliable) (index + 1)
    refine ⟨after, ?_, reliable', fun other => ?_⟩
    · simp only [clearSectors, StateT.run_bind, reliable.bread]
      exact ran
    · rcases outcome other with zero | ⟨kept, outside⟩
      · exact .inl zero
      · by_cases here : other = wrap 32 (sector + index)
        · exact .inl (kept.trans (here ▸ Device.store_self ..))
        · refine .inr ⟨kept.trans (Device.store_of_ne here), fun position low high => ?_⟩
          rcases Nat.eq_or_lt_of_le low with rfl | behind
          · exact here
          · exact outside position behind (by omega)

theorem FatWellFormed.linked (wellFormed : FatWellFormed sbi state chains) {head : Nat}
    (isHead : head ∈ state.files ∨ head ∈ state.dirs) :
    Linked (nextOf (state.device.fatLink sbi)) (some head) (chains head) none := by
  obtain ⟨first, rest, shape⟩ := exists_cons_of_ne_nil ((wellFormed.heads head).mpr isHead)
  have isFirst : (chains head).head? = some first := by rw [shape, head?_cons]
  have linked := wellFormed.lists.linked head
  rwa [isFirst, wellFormed.starts head first isFirst] at linked

theorem FatWellFormed.fatLink_ne_zero (wellFormed : FatWellFormed sbi state chains) {head : Nat}
    (isHead : head ∈ state.files ∨ head ∈ state.dirs) : state.device.fatLink sbi head ≠ 0 := by
  intro zero
  have next : nextOf (state.device.fatLink sbi) head = some 0 := by rw [nextOf, zero]; rfl
  have listed := (wellFormed.linked isHead).arrives (show Linked _ _ [head] (some 0) from ⟨rfl, next⟩)
  exact absurd (wellFormed.entries head 0 listed).1 (by decide)

theorem addToSectors_run (entry : NewEntry) (reliable : device.Reliable)
    (free : freeSlot (device.sectors (wrap 32 (sector + index))) = some slot) (steps : Nat) :
    (addToSectors entry sector (steps + 1) index).run device =
      some (some 0, Device.store { device with reads := device.reads + 1 } (wrap 32 (sector + index))
        (entry.store (device.sectors (wrap 32 (sector + index))) slot)) := by
  simp only [addToSectors, StateT.run_bind, reliable.bread, free, Option.bind_eq_bind, Option.bind_some]
  rfl

/-- The largest volume with 128 sectors per cluster: its last cluster is
33552384, and the FAT has room for more. -/
def fullInfo : SbInfo :=
  { fatStartSector := 32, dataStartSector := 262240, rootCluster := 2, sectorsPerCluster := 128,
    bytesPerCluster := 65536, fatSize := 262208, totalSectors := 0xFFFFFFFF }

def fullBoot : Block :=
  let boot := Block.zero.put 13 [128, 32, 0, 1]
  let boot := boot.put32 32 0xFFFFFFFF
  let boot := boot.put32 36 262208
  let boot := boot.put32 44 2
  boot.put16 510 0xAA55

def fullFat (sector : Nat) : Block := fun position =>
  if 128 * sector + position / 4 ≤ 33552384 then if position % 4 = 3 then 0x0F else 0xFF else 0

/-- Every cluster of the volume is the only one of a file or directory. -/
def fullDisk : Device :=
  { sectors := fun sector =>
      if sector = 0 then fullBoot
      else if 32 ≤ sector ∧ sector < 262240 then fullFat (sector - 32)
      else Block.zero
    failing := fun _ => false
    reads := 0 }

def fullState : FsState := { device := fullDisk, files := List.range' 3 33552382, dirs := [2] }

theorem fullDisk_mount : (mount.run fullDisk).map Prod.fst = some (some fullInfo) := by
  rfl

theorem fullDisk_fatLink (entry : cluster < fatEntries fullInfo) :
    fullDisk.fatLink fullInfo cluster = if cluster ≤ 33552384 then 0x0FFFFFFF else 0 := by
  have entry : cluster < 33562624 := entry
  have block : fullDisk.sectors (32 + cluster / 128) = fullFat (cluster / 128) := by
    simp only [fullDisk]
    rw [if_neg (by omega), if_pos (by omega), Nat.add_sub_cancel_left]
  change (fullDisk.sectors (32 + cluster / 128)).get32 (4 * (cluster % 128)) % 2 ^ 28 = _
  rw [block]
  have byte : ∀ index, index < 4 → fullFat (cluster / 128) (4 * (cluster % 128) + index) =
      if cluster ≤ 33552384 then if index = 3 then 0x0F else 0xFF else 0 := by
    intro index small
    simp only [fullFat]
    rw [show 128 * (cluster / 128) + (4 * (cluster % 128) + index) / 4 = cluster by omega,
      show (4 * (cluster % 128) + index) % 4 = index by omega]
  have zero := byte 0 (by omega)
  have one := byte 1 (by omega)
  have two := byte 2 (by omega)
  have three := byte 3 (by omega)
  rw [Nat.add_zero] at zero
  by_cases used : cluster ≤ 33552384
  · simp [Block.get32, Block.get16, used, zero, one, two, three]
  · simp [Block.get32, Block.get16, used, zero, one, two, three]

theorem fullInfo_geometry : Geometry fullInfo := by
  constructor <;> decide

theorem fullState_wellFormed : FatWellFormed fullInfo fullState
    (singleChains fun head => 2 ≤ head ∧ head ≤ 33552384) := by
  have files : ∀ head, head ∈ fullState.files ↔ 3 ≤ head ∧ head ≤ 33552384 := by
    simp only [fullState, mem_range'_1]
    omega
  have dirs : ∀ head, head ∈ fullState.dirs ↔ head = 2 := fun head => mem_singleton
  refine .of_single (fun head => ?_) (fun head isFile isDir => ?_) (fun head isHead => ?_)
    fun cluster entry notHead two => ?_
  · rw [files, dirs, decide_eq_true_iff]
    omega
  · rw [files] at isFile
    rw [dirs] at isDir
    omega
  · have range := of_decide_eq_true isHead
    have entry : head < fatEntries fullInfo := by
      change head < 33562624
      omega
    refine ⟨range.1, entry, ?_⟩
    change _ ≤ fullDisk.fatLink fullInfo head
    rw [fullDisk_fatLink entry, if_pos range.2]
    decide
  · rw [decide_eq_true_iff] at notHead
    change fullDisk.fatLink fullInfo cluster = 0
    rw [fullDisk_fatLink entry, if_neg (by omega)]

/-- The first free entry of the FAT belongs to no cluster of the volume. -/
theorem fullDisk_findFreeCluster :
    Yields (Represents fullInfo) (findFreeCluster fullInfo) (fullDisk.volume fullInfo) 33552385
      (fullDisk.volume fullInfo) := by
  have link : ∀ cluster, cluster < 33562624 → (fullDisk.volume fullInfo).fat cluster =
      if cluster ≤ 33552384 then 0x0FFFFFFF else 0 := fun cluster entry => fullDisk_fatLink entry
  have indexed : ∀ other, 2 ≤ other → other < 2 + (maxCluster fullInfo - 2) → Indexed fullInfo other := by
    intro other _ (bound : other < 2 + 33554429)
    refine ⟨?_, ?_⟩
    · change other < 33562624
      omega
    · change other < 268435448
      omega
  obtain ⟨found, searched, outcome⟩ := findFreeFrom_yields fullInfo_geometry
    indexed
  change found = 0 ∧ (∀ other, 2 ≤ other → other < 2 + 33554429 → _) ∨
    2 ≤ found ∧ found < 2 + 33554429 ∧ _ at outcome
  have isFound : found = 33552385 := by
    have free := link 33552385 (by omega)
    rcases outcome with ⟨-, used⟩ | ⟨low, high, isFree, used⟩
    · exact absurd free (used 33552385 (by omega) (by omega))
    · rw [link found (by omega)] at isFree
      by_contra different
      refine used 33552385 (by omega) ?_ free
      split at isFree
      · cases isFree
      · omega
  rw [← isFound]
  exact searched

/-- The sectors of that cluster wrap around to the boot sector and the FAT. -/
theorem fullDisk_allocCluster :
    ∃ after, (allocCluster fullInfo 0).run fullDisk = some (33552385, after) ∧ after.Reliable ∧
      after.sectors 32 = Block.zero ∧ after.sectors 262240 = Block.zero := by
  have reliable : fullDisk.Reliable := fun _ => rfl
  have indexed : Indexed fullInfo 33552385 := ⟨by decide, by decide⟩
  have root : Placed fullInfo 2 := ⟨⟨by decide, by decide⟩, by decide, by decide⟩
  obtain ⟨searched, _, search, represents⟩ := fullDisk_findFreeCluster fullDisk reliable.represents
  obtain ⟨closed, _, close, represents⟩ := writeFatEntry_yields fullInfo_geometry indexed
    (fullDisk.volume fullInfo) 0x0FFFFFFF searched represents
  obtain ⟨after, clear, reliable, outcome⟩ := clearSectors_run
    represents.reliable 128 0
  have sector : clusterToSector fullInfo 33552385 = 2 ^ 32 - 32 := by decide
  refine ⟨after, ?_, reliable, ?_, ?_⟩
  · have link : (linkCluster fullInfo 0 33552385).run closed = some (true, closed) := rfl
    have clear : (clearSectors (clusterToSector fullInfo 33552385) fullInfo.sectorsPerCluster 0).run
        closed = some ((), after) := sector ▸ clear
    simp only [allocCluster, StateT.run_bind, search _ le_rfl, close _ le_rfl, link, clear,
      Option.bind_eq_bind, Option.bind_some, OfNat.ofNat_ne_zero, if_false, if_true, lt_irrefl]
    rfl
  · exact (outcome 32).resolve_right fun kept => kept.2 64 (by omega) (by omega) rfl
  · rcases outcome 262240 with zero | ⟨kept, -⟩
    · exact zero
    · exact kept.trans (represents.data 2 root 0 (by decide))

/-- `fat32_create` in the root directory clears the FAT entry of the root
directory. -/
theorem fullDisk_create :
    ∃ device, (createEntry fullInfo 1 2 name false).run fullDisk = some (some 33552385, device) ∧
      (create fullInfo 1 2 name true).run fullDisk =
        some ((0, some { ino := 33552385, size := 0 }), device) ∧
      device.fatLink fullInfo 2 = 0 := by
  obtain ⟨allocated, alloc, reliable, fatSector, rootSector⟩ := fullDisk_allocCluster
  let entry : NewEntry := { name, cluster := 33552385, size := 0, isDir := false }
  let device : Device :=
    Device.store { allocated with reads := allocated.reads + 1 } 262240 (entry.store Block.zero 0)
  have added : (addEntry fullInfo entry 1 2).run allocated = some (0, device) := by
    have sector : wrap 32 (clusterToSector fullInfo 2 + 0) = 262240 := by decide
    have stored : (addToSectors entry (clusterToSector fullInfo 2) fullInfo.sectorsPerCluster 0).run
        allocated = some (some 0, device) := by
      have free : freeSlot (allocated.sectors (wrap 32 (clusterToSector fullInfo 2 + 0))) = some 0 := by
        rw [sector, rootSector, freeSlot_zero]
      have first := addToSectors_run entry reliable free 127
      rwa [sector, rootSector] at first
    simp only [addEntry, StateT.run_bind, stored]
    rfl
  have begun : (createEntry fullInfo 1 2 name false).run fullDisk = some (some 33552385, device) := by
    simp only [createEntry, StateT.run_bind, alloc, Option.bind_eq_bind, Option.bind_some,
      OfNat.ofNat_ne_zero, if_false]
    rw [added]
    rfl
  refine ⟨device, begun, ?_, ?_⟩
  · simp only [create, StateT.run_bind, begun]
    rfl
  · have kept : device.sectors 32 = Block.zero :=
      (Device.store_of_ne (by decide)).trans fatSector
    change (device.sectors 32).get32 8 % 2 ^ 28 = 0
    rw [kept]
    rfl

theorem full_volume_create_breaks_fat : (mount.run fullDisk).map Prod.fst = some (some fullInfo) ∧
      maxCluster fullInfo ≤ fatEntries fullInfo ∧ fullState.device.Reliable ∧
      FatWellFormed fullInfo fullState (singleChains fun head => 2 ≤ head ∧ head ≤ 33552384) ∧
      ∃ after, FsStep fullInfo fullState (.create 2 smallName true) after ∧
        ¬ ∃ chains, FatWellFormed fullInfo after chains := by
  obtain ⟨device, begun, returned, broken⟩ := fullDisk_create
  refine ⟨fullDisk_mount, by decide, fun _ => rfl, fullState_wellFormed, _,
    .create (mem_singleton_self 2) begun returned, ?_⟩
  rintro ⟨chains, wellFormed⟩
  exact wellFormed.fatLink_ne_zero (show _ ∈ _ ∨ 2 ∈ [2] by simp) broken

end Rucix.Fs.Fat32
