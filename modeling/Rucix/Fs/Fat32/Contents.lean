import Rucix.Fs.Fat32.Entries
import Rucix.Fs.Fat32.Integrity

namespace Rucix.Fs.Fat32

open Rucix.Data Function List

/-! A file made by `fat32_create`, seen as a sparse array of bytes. -/

inductive FileOp where
  | write (bytes : List UInt8) (offset : Nat)
  | read (offset count : Nat)

abbrev FileResult := Int × List UInt8

structure SparseFile where
  size : Nat
  bytes : Block

namespace SparseFile

def empty : SparseFile := { size := 0, bytes := Block.zero }

def write (file : SparseFile) (bytes : List UInt8) (offset : Nat) : SparseFile :=
  if bytes.length = 0 then file
  else { size := max file.size (offset + bytes.length), bytes := file.bytes.put offset bytes }

def read (file : SparseFile) (offset count : Nat) : List UInt8 :=
  copyBytes file.bytes offset (min count (file.size - offset))

def perform (file : SparseFile) : FileOp → FileResult × SparseFile
  | .write bytes offset => ((bytes.length, []), file.write bytes offset)
  | .read offset count => (((min count (file.size - offset) : Nat), file.read offset count), file)

end SparseFile

def SparseStep (before : SparseFile) (call : FileOp × FileResult) (after : SparseFile) : Prop :=
  before.perform call.1 = (call.2, after)

structure OpenFile where
  device : Device
  inode : Inode

def FileOp.perform (sbi : SbInfo) (dir fuel : Nat) (file : OpenFile) :
    FileOp → Option (FileResult × OpenFile)
  | .write bytes offset =>
    ((Fat32.write sbi fuel file.inode (some dir) bytes offset).run file.device).map
      fun ((status, inode), device) => ((status, []), { device, inode })
  | .read offset count =>
    ((Fat32.read sbi fuel file.inode offset count).run file.device).map
      fun (result, device) => (result, { file with device })

def FileStep (sbi : SbInfo) (dir : Nat) (before : OpenFile) (call : FileOp × FileResult)
    (after : OpenFile) : Prop :=
  ∃ fuel, call.1.perform sbi dir fuel before = some (call.2, after)

theorem FileStep.of_write {after : Inode}
    (returned : (Fat32.write sbi fuel inode (some dir) bytes offset).run device =
      some ((status, after), final)) :
    FileStep sbi dir { device, inode } (.write bytes offset, (status, []))
      { device := final, inode := after } :=
  ⟨fuel, Option.map_eq_some_iff.mpr ⟨_, returned, rfl⟩⟩

theorem FileStep.of_read {sbi : SbInfo} {dir fuel offset count : Nat} {device final : Device} {inode : Inode}
    {result : FileResult} (returned : (Fat32.read sbi fuel inode offset count).run device = some (result, final)) :
    FileStep sbi dir { device, inode } (.read offset count, result) { device := final, inode } :=
  ⟨fuel, Option.map_eq_some_iff.mpr ⟨_, returned, rfl⟩⟩

/-- Offsets are below 2³², and the file fits into its first cluster and `room`
more. -/
def FileOp.Fits (sbi : SbInfo) (room : Nat) : FileOp → Prop
  | .write bytes offset => offset + bytes.length < 2 ^ 32 ∧
      (bytes.length ≠ 0 → offset + bytes.length ≤ (room + 1) * sbi.bytesPerCluster)
  | .read offset count => offset + count < 2 ^ 32

/-- What stays the same while a file is used: where its entry is, how many
clusters were free at first, and the other chains with their data. -/
structure Home where
  dir : Nat
  dirs : List Nat
  ino : Nat
  name : CString
  found : Nat
  index : Nat
  slot : Nat
  room : Nat
  chains : Nat → List Nat
  base : Volume

structure Stores (sbi : SbInfo) (home : Home) (file : SparseFile) (volume : Volume)
    (chains : Nat → List Nat) : Prop where
  wellFormed : Chains sbi volume.fat chains
  used : chains home.ino ≠ []
  directory : chains home.dir = home.dirs
  separate : Separate volume (chains home.ino) home.dirs
  room : (freeClusters sbi volume.fat).card + (chains home.ino).length = home.room + 1
  recorded : Recorded sbi home.dirs home.ino home.name home.found home.index home.slot file.size volume
  contents : fileBytes sbi volume (chains home.ino) = file.bytes
  covered : file.size ≤ (chains home.ino).length * (sbi.sectorsPerCluster * 512)
  small : file.size < 2 ^ 32
  others : ∀ head, head ≠ home.dir → head ≠ home.ino → chains head = home.chains head ∧
    ∀ cluster ∈ home.chains head, volume.data cluster = home.base.data cluster

variable {volume : Volume} {chains : Nat → List Nat}

/-- A write that fits into the room of its file writes every byte. -/
theorem write_fits (addressable : Addressable sbi) (keeper : Keeper sbi ino dir dirs inv)
    (wellFormed : Chains sbi volume.fat chains) (directory : IsDirectory chains dir dirs)
    (separate : Separate volume (chains ino) dirs) (used : chains ino ≠ [])
    (isRoom : (freeClusters sbi volume.fat).card + (chains ino).length = room + 1) (holds : inv size volume)
    (nonempty : bytes.length ≠ 0) (fits : (FileOp.write bytes offset).Fits sbi room) : ∃ after afterChains,
      Finishes (Represents sbi) (fun fuel => Fat32.write sbi fuel { ino, size } dir bytes offset) volume
        ((bytes.length : Int), { ino, size := max size (offset + bytes.length) }) after ∧
      Written sbi ino dirs inv offset offset bytes bytes.length size volume chains
        (max size (offset + bytes.length)) after afterChains := by
  obtain ⟨small, capacity⟩ := fits
  obtain ⟨rest, shape⟩ := wellFormed.shape used
  obtain ⟨status, total, finalSize, after, afterChains, finishes, written, outcome⟩ :=
    write_finishes addressable keeper wellFormed directory separate shape nonempty holds offset
  rw [wrap_of_lt (by omega)] at written outcome
  obtain ⟨rfl, rfl⟩ : status = bytes.length ∧ total = bytes.length := by
    refine outcome.resolve_right fun ⟨short, full, filled⟩ => ?_
    have same := written.effect.room
    have enough := capacity nonempty
    rw [full, Finset.card_empty, Nat.zero_add, isRoom] at same
    rw [same] at filled
    rw [addressable.bytes] at enough
    omega
  obtain rfl : finalSize = max size (offset + bytes.length) := by
    rw [written.size, if_neg nonempty]
  exact ⟨after, afterChains, finishes, written⟩

namespace Stores

variable (stores : Stores sbi home file volume chains)
include stores

theorem dir_ne_ino : home.dir ≠ home.ino :=
  stores.separate.head_ne stores.directory stores.recorded.found_mem

theorem write (addressable : Addressable sbi) {bytes : List UInt8}
    {offset : Nat} (fits : (FileOp.write bytes offset).Fits sbi home.room) :
    ∃ after afterChains,
      Finishes (Represents sbi)
        (fun fuel => Fat32.write sbi fuel { ino := home.ino, size := file.size } (some home.dir) bytes
          offset) volume
        ((bytes.length : Int), { ino := home.ino, size := (file.write bytes offset).size }) after ∧
      Stores sbi home (file.write bytes offset) after afterChains := by
  obtain ⟨small, capacity⟩ := fits
  by_cases empty : bytes.length = 0
  · rw [SparseFile.write, empty]
    refine ⟨volume, chains, ?_, stores⟩
    simp only [Fat32.write, if_pos empty]
    exact .pure
  · have directory : IsDirectory chains (some home.dir) home.dirs := fun head same =>
      Option.some.inj same ▸ stores.directory
    obtain ⟨after, afterChains, finishes, written⟩ :=
      write_fits addressable (Recorded.keeper addressable.toGeometry) stores.wellFormed directory
        stores.separate stores.used stores.room stores.recorded empty ⟨small, capacity⟩
    have effect := written.effect
    rw [SparseFile.write, if_neg empty]
    have contents := written.contents
    have reaches := written.reaches empty
    obtain ⟨extra, longer⟩ := effect.chain_eq
    rw [take_length, stores.contents] at contents
    refine ⟨after, afterChains, finishes, effect.wellFormed, ?_, ?_, stores.separate.effect effect,
      effect.room.trans stores.room, written.holds, contents, ?_, ?_, fun head notDir notIno => ?_⟩
    · rw [longer]
      exact append_ne_nil_of_left_ne_nil stores.used extra
    · rw [effect.other_chain stores.dir_ne_ino, stores.directory]
    · have covered := stores.covered
      rw [longer, length_append, Nat.add_mul] at reaches ⊢
      exact max_le (by omega) (by omega)
    · exact max_lt stores.small small
    · obtain ⟨same, kept⟩ := stores.others head notDir notIno
      refine ⟨(effect.other_chain notIno).trans same, fun cluster listed => ?_⟩
      rw [← kept cluster listed]
      rw [← same] at listed
      exact effect.others cluster (stores.wellFormed.fat_ne_zero listed)
        (fun also => stores.wellFormed.lists.ne_of_mem notIno listed also rfl)
        (fun isDir => stores.wellFormed.lists.ne_of_mem notDir listed (stores.directory ▸ isDir) rfl)

theorem read (geometry : Geometry sbi) (offset count : Nat) :
    Finishes (Represents sbi)
      (fun fuel => Fat32.read sbi fuel { ino := home.ino, size := file.size } offset count) volume
      (((min count (file.size - offset) : Nat) : Int), file.read offset count) volume := by
  obtain ⟨rest, shape⟩ := stores.wellFormed.shape stores.used
  have finishes := read_finishes geometry stores.wellFormed
    (show chains (Inode.mk home.ino file.size).ino = (Inode.mk home.ino file.size).ino :: rest from shape)
    stores.covered offset count
  rw [SparseFile.read, ← stores.contents]
  exact finishes

end Stores

def Backs (sbi : SbInfo) (home : Home) (opened : OpenFile) (file : SparseFile) : Prop :=
  opened.inode = { ino := home.ino, size := file.size } ∧
    ∃ volume chains, Represents sbi opened.device volume ∧ Stores sbi home file volume chains

variable {opened after : OpenFile}

theorem Backs.step (addressable : Addressable sbi) (backs : Backs sbi home opened file)
    (fits : call.1.Fits sbi home.room) (step : FileStep sbi home.dir opened call after) :
    ∃ next, SparseStep file call next ∧ Backs sbi home after next := by
  obtain ⟨isInode, volume, chains, represents, stores⟩ := backs
  obtain ⟨op, result⟩ := call
  obtain ⟨fuel, done⟩ := step
  cases op with
  | write bytes offset =>
    obtain ⟨⟨⟨status, inode⟩, device⟩, returned, same⟩ := Option.map_eq_some_iff.mp done
    cases same
    rw [isInode] at returned
    obtain ⟨volume, chains, finishes, stores⟩ := stores.write addressable fits
    obtain ⟨same, represents⟩ := finishes.result_eq (write_mono sbi) represents returned
    cases same
    exact ⟨file.write bytes offset, rfl, rfl, volume, chains, represents, stores⟩
  | read offset count =>
    obtain ⟨⟨value, device⟩, returned, same⟩ := Option.map_eq_some_iff.mp done
    cases same
    rw [isInode] at returned
    obtain ⟨same, represents⟩ := (stores.read addressable.toGeometry offset count).result_eq
      (read_mono sbi) represents returned
    cases same
    exact ⟨file, rfl, isInode, volume, chains, represents, stores⟩

theorem Backs.returns (addressable : Addressable sbi) (backs : Backs sbi home opened file)
    (fits : op.Fits sbi home.room) : ∃ result after, FileStep sbi home.dir opened (op, result) after := by
  obtain ⟨isInode, volume, chains, represents, stores⟩ := backs
  cases op with
  | write bytes offset =>
    obtain ⟨volume, chains, finishes, stores⟩ := stores.write addressable fits
    obtain ⟨final, bound, ran, -⟩ := finishes opened.device represents
    have returned := ran bound le_rfl
    rw [← isInode] at returned
    exact ⟨_, _, bound, Option.map_eq_some_iff.mpr ⟨_, returned, rfl⟩⟩
  | read offset count =>
    obtain ⟨final, bound, ran, -⟩ := stores.read addressable.toGeometry offset count opened.device represents
    have returned := ran bound le_rfl
    rw [← isInode] at returned
    exact ⟨_, _, bound, Option.map_eq_some_iff.mpr ⟨_, returned, rfl⟩⟩

section

variable {name : CString} (addressable : Addressable sbi) (wellFormed : Chains sbi volume.fat chains)
  (used : chains dir ≠ [])
  (unnamed : ∀ cluster ∈ chains dir, ∀ index, index < sbi.sectorsPerCluster → ∀ slot,
    Live (volume.data cluster index) slot →
      entryCluster (volume.data cluster index) slot ∉ freeClusters sbi volume.fat)
  (visible : name.val.head? ≠ some 0xE5)
include addressable wellFormed used unnamed visible

theorem Allocated.stores {after : Volume} (allocated : Allocated sbi volume 0 cluster middle)
    (added : Added sbi dir { name, cluster, size := 0, isDir := false } middle
      (update chains cluster [cluster]) after afterChains) :
    ∃ found index slot,
      Stores sbi { dir, dirs := afterChains dir, ino := cluster, name, found, index, slot,
                   room := (freeClusters sbi after.fat).card, chains, base := volume }
        SparseFile.empty after afterChains := by
  have effect := added.effect
  have started := allocated.start addressable wellFormed rfl
  have different : dir ≠ cluster := fun same => used (same ▸ wellFormed.unused allocated.free)
  have sameDir : update chains cluster [cluster] dir = chains dir :=
    update_of_ne different ..
  have chain : afterChains cluster = [cluster] := by
    rw [effect.other_chain different.symm, update_self]
  have kept : ∀ {head other : Nat}, other ∈ update chains cluster [cluster] head → head ≠ dir →
      after.data other = middle.data other := fun listed notDir =>
    effect.others _ (started.fat_ne_zero listed)
      (fun isDir => started.lists.ne_of_mem notDir listed isDir rfl) (by simp)
  have old : ∀ {head other : Nat}, other ∈ chains head → middle.data other = volume.data other :=
    fun listed => allocated.others _ fun same => wellFormed.unlisted allocated.free _ (same ▸ listed)
  have fresh : ∀ other ∈ update chains cluster [cluster] dir, ∀ index,
      index < sbi.sectorsPerCluster → ∀ slot, Live (middle.data other index) slot →
        entryCluster (middle.data other index) slot ≠ cluster := by
    intro other listed index inside slot live same
    rw [sameDir] at listed
    rw [old listed] at live same
    exact unnamed other listed index inside slot live (same ▸ allocated.chosen)
  have small : cluster < 2 ^ 32 := by
    have bound := (allocated.placed addressable).lt_end
    unfold endOfChain at bound
    omega
  have cleared : ∀ index, index < sbi.sectorsPerCluster → after.data cluster index = Block.zero := by
    intro index inside
    rw [kept (show cluster ∈ update chains cluster [cluster] cluster by simp) different.symm]
    exact allocated.cleared index inside
  have zero : fileBytes sbi after [cluster] = Block.zero :=
    fileBytes_append addressable.toGeometry (show ∀ other ∈ [], after.data other = volume.data other by simp)
      cleared
  obtain ⟨found, index, slot, recorded⟩ := added.recorded fresh started small
    (formatName_head_ne (by decide) (.inr (by decide)) visible)
  refine ⟨found, index, slot, effect.wellFormed, by simp [chain], rfl,
    fun other listed => ⟨effect.wellFormed.fat_ne_zero listed, fun isFile =>
      effect.wellFormed.lists.ne_of_mem different listed isFile rfl⟩, by simp [chain], recorded, ?_,
    Nat.zero_le _, by decide, fun head notDir notIno => ⟨?_, fun other listed => ?_⟩⟩
  · change fileBytes sbi after (afterChains cluster) = Block.zero
    rw [chain, zero]
  · exact (effect.other_chain notDir).trans (update_of_ne notIno ..)
  · have listed' : other ∈ update chains cluster [cluster] head := by
      rwa [update_of_ne notIno]
    rw [kept listed' notDir, old listed]

theorem create_stores (represents : Represents sbi device volume)
    (created : (create sbi fuel dir name memory).run device = some ((0, some inode), final)) :
    ∃ found index slot dirs after afterChains,
      inode.size = 0 ∧ chains inode.ino = [] ∧ Represents sbi final after ∧
      Stores sbi { dir, dirs, ino := inode.ino, name, found, index, slot,
                   room := (freeClusters sbi after.fat).card, chains, base := volume }
        SparseFile.empty after afterChains := by
  obtain ⟨rest, shape⟩ := wellFormed.shape used
  obtain ⟨result, after, entered, outcome⟩ := createEntry_finishes addressable wellFormed shape
  rcases outcome with ⟨rfl, -, -⟩ | ⟨cluster, middle, afterChains, rfl, allocated, added⟩
  · have finishes : Finishes (Represents sbi) (fun fuel => create sbi fuel dir name memory) volume
        (-1, none) after := .bind entered (.pure)
    cases (finishes.result_eq (create_mono sbi) represents created).1
  · have finishes : Finishes (Represents sbi) (fun fuel => create sbi fuel dir name memory) volume
        (if memory then (0, some { ino := cluster, size := 0 }) else (-1, none)) after :=
      .bind entered (.pure)
    obtain ⟨value, represents⟩ := finishes.result_eq (create_mono sbi) represents created
    cases memory with
    | false => cases value
    | true =>
      cases value
      obtain ⟨found, index, slot, stores⟩ := Allocated.stores addressable wellFormed used unnamed visible
        allocated added
      exact ⟨found, index, slot, afterChains dir, after, afterChains, rfl,
        wellFormed.unused allocated.free, represents, stores⟩

end

structure EntryAt (sbi : SbInfo) (device : Device) (dirs : List Nat) (name : CString)
    (ino found index slot : Nat) : Prop where
  listed : found ∈ dirs
  inside : index < sbi.sectorsPerCluster
  small : slot < 16
  name : entryFullName (device.clusterSector sbi found index) slot = formatName name
  cluster : entryCluster (device.clusterSector sbi found index) slot = ino

section

variable (represents : Represents sbi device volume)
include represents

theorem Represents.freeClusters_eq (addressable : Addressable sbi) :
    freeClusters sbi (device.fatLink sbi) = freeClusters sbi volume.fat := by
  ext cluster
  rw [mem_freeClusters, mem_freeClusters]
  refine and_congr_right fun bound => and_congr_right fun two => ?_
  rw [represents.fatLink_eq (addressable.allocatable cluster two bound).lt_entries]

variable (stores : Stores sbi home file volume chains)
include stores

theorem Represents.recorded_sector :
    device.clusterSector sbi home.found home.index = volume.data home.found home.index := by
  have listed := stores.recorded.found_mem
  rw [← stores.directory] at listed
  exact represents.data home.found (stores.wellFormed.placed home.dir home.found listed) home.index
    stores.recorded.located.inside

theorem Stores.entryAt :
    EntryAt sbi device home.dirs home.name home.ino home.found home.index home.slot := by
  have recorded := stores.recorded
  obtain ⟨listed, named⟩ := entry_of_found recorded.located.scanned
  refine ⟨recorded.found_mem, recorded.located.inside, mem_range.mp listed, ?_, ?_⟩
  · rw [represents.recorded_sector stores, recorded.name]
  · rw [represents.recorded_sector stores, named]

theorem Stores.fatWellFormed (heads : ∀ head, home.chains head ≠ [] ↔ head ∈ files ∨ head ∈ dirs)
    (separate : ∀ head ∈ files, head ∉ dirs) (isDir : home.dir ∈ dirs) (fresh : home.chains home.ino = []) :
    FatWellFormed sbi { device, files := home.ino :: files, dirs } chains := by
  have unlisted : home.ino ∉ files ∧ home.ino ∉ dirs := by
    have := (heads home.ino).not
    tauto
  refine Holds.fatWellFormed ⟨represents, stores.wellFormed, fun head => ?_, fun head isFile => ?_⟩
  · by_cases same : head = home.ino
    · subst same
      simp [stores.used]
    · by_cases same' : head = home.dir
      · subst same'
        simp [stores.directory, isDir, ne_nil_of_mem stores.recorded.found_mem]
      · rw [(stores.others head same' same).1, heads]
        simp [same]
  · rcases mem_cons.mp isFile with rfl | old
    · exact unlisted.2
    · exact separate head old

end

theorem created_file_refines_sparse_file (addressable : Addressable sbi) {initial : FsState}
    (reliable : initial.device.Reliable) (wellFormed : FatWellFormed sbi initial chains)
    (placed : ∀ head, ∀ cluster ∈ chains head, Placed sbi cluster) {dir : Nat} (isDir : dir ∈ initial.dirs)
    (unnamed : ∀ cluster ∈ chains dir, ∀ index, index < sbi.sectorsPerCluster → ∀ slot,
      Live (initial.device.clusterSector sbi cluster index) slot →
        entryCluster (initial.device.clusterSector sbi cluster index) slot ∉
          freeClusters sbi (initial.device.fatLink sbi)) {name : CString} (visible : name.val.head? ≠ some 0xE5)
    {fuel : Nat} {memory : Bool} {inode : Inode} {device : Device}
    (created : (create sbi fuel dir name memory).run initial.device = some ((0, some inode), device)) :
    ∃ dirs found index slot, EntryAt sbi device dirs name inode.ino found index slot ∧
      ∀ trace final,
        Run (fun before call after => FileStep sbi dir before call after ∧
          call.1.Fits sbi (freeClusters sbi (device.fatLink sbi)).card) { device, inode } trace final →
        ∃ file, Run SparseStep SparseFile.empty trace file ∧
          final.inode = { ino := inode.ino, size := file.size } ∧
          entrySize (final.device.clusterSector sbi found index) slot = file.size ∧
          (∃ finalChains,
            FatWellFormed sbi
              { device := final.device, files := inode.ino :: initial.files, dirs := initial.dirs }
              finalChains ∧
            finalChains dir = dirs ∧
            ∀ head, head ≠ dir → head ≠ inode.ino → finalChains head = chains head ∧
              ∀ cluster ∈ chains head, ∀ index, index < sbi.sectorsPerCluster →
                final.device.clusterSector sbi cluster index =
                  initial.device.clusterSector sbi cluster index) ∧
          ∀ op, op.Fits sbi (freeClusters sbi (device.fatLink sbi)).card →
            ∃ result after, FileStep sbi dir final (op, result) after := by
  have holds := wellFormed.holds reliable placed
  obtain ⟨found, index, slot, dirs, volume, startChains, size, fresh, represents, stores⟩ :=
    create_stores addressable holds.wellFormed ((wellFormed.heads dir).mpr (.inr isDir)) unnamed visible
      holds.represents created
  refine ⟨dirs, found, index, slot, stores.entryAt represents, fun trace final run => ?_⟩
  rw [represents.freeClusters_eq addressable] at run ⊢
  have isEmpty : inode = { ino := inode.ino, size := 0 } := by rw [← size]
  have start : Backs sbi _ { device, inode } SparseFile.empty :=
    ⟨isEmpty, volume, startChains, represents, stores⟩
  obtain ⟨file, matching, backs⟩ := run.simulate start fun before call after view backs step =>
    backs.step addressable step.2 step.1
  obtain ⟨isInode, reached, finalChains, represents, stores⟩ := backs
  refine ⟨file, matching, isInode, ?_, ⟨finalChains, ?_, stores.directory, fun head notDir notIno => ?_⟩,
    fun op fits => ?_⟩
  · have sized := stores.recorded.size
    rw [← represents.recorded_sector stores, wrap_of_lt stores.small] at sized
    exact sized
  · exact stores.fatWellFormed represents wellFormed.heads wellFormed.separate isDir fresh
  · obtain ⟨same, kept⟩ := stores.others head notDir notIno
    refine ⟨same, fun cluster listed index inside => ?_⟩
    rw [represents.data cluster (placed head cluster listed) index inside, kept cluster listed]
    rfl
  · exact Backs.returns addressable ⟨isInode, reached, finalChains, represents, stores⟩ fits

def Device.afterwards {α : Type} (device : Device) (action : Io α) : Device :=
  ((action.run device).map Prod.snd).getD device

theorem Device.run_eq {α : Type} {device : Device} {action : Io α} {value : α}
    (returned : (action.run device).map Prod.fst = some value) :
    action.run device = some (value, device.afterwards action) := by
  obtain ⟨⟨_, final⟩, done, rfl⟩ := Option.map_eq_some_iff.mp returned
  simp [Device.afterwards, done]

theorem smallDisk_unnamed : ∀ cluster ∈ singleChains (· = 2) 2, ∀ index, index < 1 → ∀ slot,
    Live (smallDisk.clusterSector smallInfo cluster index) slot →
      entryCluster (smallDisk.clusterSector smallInfo cluster index) slot ∉
        freeClusters smallInfo (smallDisk.fatLink smallInfo) := by
  intro cluster listed index inside slot live
  cases mem_singleton.mp listed
  obtain rfl : index = 0 := by omega
  exact absurd rfl live.1

def smallFile : Device := smallDisk.afterwards (create smallInfo 2 2 smallName true)

def smallWrite : Io (Int × Inode) := write smallInfo 4 { ino := 3, size := 0 } (some 2) [7] 600

def smallRead : Io FileResult := read smallInfo 4 { ino := 3, size := 601 } 599 4

/-- A byte behind a gap is read back, with a 0 from the gap. -/
theorem created_file_refines_sparse_file_small :
    ∃ dirs found index slot, EntryAt smallInfo smallFile dirs smallName 3 found index slot ∧
      ∃ file, Run SparseStep SparseFile.empty [(.write [7] 600, (1, [])), (.read 599 4, (2, [0, 7]))] file ∧
        file.size = 601 ∧
        entrySize (((smallFile.afterwards smallWrite).afterwards smallRead).clusterSector smallInfo found
          index) slot = 601 := by
  have created : (create smallInfo 2 2 smallName true).run smallState.device =
      some ((0, some { ino := 3, size := 0 }), smallFile) := Device.run_eq (by decide +kernel)
  have written : smallWrite.run smallFile =
      some ((1, { ino := 3, size := 601 }), smallFile.afterwards smallWrite) :=
    Device.run_eq (by decide +kernel)
  have read : smallRead.run (smallFile.afterwards smallWrite) =
      some ((2, [0, 7]), (smallFile.afterwards smallWrite).afterwards smallRead) :=
    Device.run_eq (by decide +kernel)
  obtain ⟨dirs, found, index, slot, entry, refines⟩ := created_file_refines_sparse_file
    smallInfo_addressable (fun _ => rfl) smallState_wellFormed smallState_placed (mem_singleton_self 2)
    smallDisk_unnamed (show smallName.val.head? ≠ some 0xE5 by decide) created
  obtain ⟨file, matching, isInode, entrySized, -⟩ := refines _ _
    (.snoc (.snoc .nil ⟨.of_write written, by decide, fun _ => by decide⟩)
      ⟨.of_read read, show 599 + 4 < 2 ^ 32 by decide⟩)
  have size : file.size = 601 := (congrArg Inode.size isInode).symm
  exact ⟨dirs, found, index, slot, entry, file, matching, size, entrySized.trans size⟩

def markedName : CString := ⟨[0xE5, 65], by decide⟩

def markedFile : Device := smallDisk.afterwards (create smallInfo 2 2 markedName true)

def markedWrite : Io (Int × Inode) := write smallInfo 4 { ino := 3, size := 0 } (some 2) [7] 0

/-- A write of no bytes at offset 5 leaves the size at 0.  `fat32_update_inode_size` skips
the entry with the marked name, so the size in it stays 0. -/
theorem sizes_behind_end_offsets : (create smallInfo 2 2 smallName true).run smallDisk =
        some ((0, some { ino := 3, size := 0 }), smallFile) ∧
      FileStep smallInfo 2 { device := smallFile, inode := { ino := 3, size := 0 } }
        (.write [] 5, (0, [])) { device := smallFile, inode := { ino := 3, size := 0 } } ∧
      (create smallInfo 2 2 markedName true).run smallDisk =
        some ((0, some { ino := 3, size := 0 }), markedFile) ∧
      EntryAt smallInfo markedFile [2] markedName 3 2 0 0 ∧
      FileStep smallInfo 2 { device := markedFile, inode := { ino := 3, size := 0 } }
        (.write [7] 0, (1, []))
        { device := markedFile.afterwards markedWrite, inode := { ino := 3, size := 1 } } ∧
      entrySize ((markedFile.afterwards markedWrite).clusterSector smallInfo 2 0) 0 = 0 := by
  have written : markedWrite.run markedFile =
      some ((1, { ino := 3, size := 1 }), markedFile.afterwards markedWrite) :=
    Device.run_eq (by decide +kernel)
  exact ⟨Device.run_eq (by decide +kernel), ⟨0, rfl⟩, Device.run_eq (by decide +kernel),
    ⟨by decide, by decide, by decide, by decide +kernel, by decide +kernel⟩, .of_write written,
    by decide +kernel⟩

end Rucix.Fs.Fat32
