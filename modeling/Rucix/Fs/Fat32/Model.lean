import Rucix.Data.Bytes
import Rucix.Data.Word

namespace Rucix.Fs.Fat32

open Rucix.Data

/-! The FAT32 driver, `kernel/fs/fat32.c`.

The block layer is a store of 512-byte sectors; each `bread` may fail.  `uint32_t`
values are natural numbers, with `wrap 32` where the source can overflow.  A loop that
follows a cluster chain takes `fuel`.  Byte counts are not negative.
-/

structure Device where
  sectors : Nat → Block
  /-- Whether the `n`-th `bread` fails. -/
  failing : Nat → Bool
  reads : Nat

abbrev Io := StateT Device Option

def bread (sector : Nat) : Io (Option Block) := fun device =>
  some (if device.failing device.reads then none else some (device.sectors sector),
    { device with reads := device.reads + 1 })

def Device.store (device : Device) (sector : Nat) (block : Block) : Device :=
  { device with sectors := Function.update device.sectors sector block }

/-- `mark_buffer_dirty` and `sync_dirty_buffer` of a buffer that holds `block`. -/
def syncDirtyBuffer (sector : Nat) (block : Block) : Io Unit := fun device =>
  some ((), device.store sector block)

structure SbInfo where
  fatStartSector : Nat
  dataStartSector : Nat
  rootCluster : Nat
  sectorsPerCluster : Nat
  bytesPerCluster : Nat
  fatSize : Nat
  totalSectors : Nat

/-- The fields that `fat32_mount` takes from the boot sector. -/
def sbInfo (boot : Block) : SbInfo :=
  let sectorsPerCluster := (boot 13).toNat
  let reservedSectors := boot.get16 14
  let fatCount := (boot 16).toNat
  let fatSize16 := boot.get16 22
  let fatSize := if fatSize16 ≠ 0 then fatSize16 else boot.get32 36
  { fatStartSector := reservedSectors
    dataStartSector := wrap 32 (reservedSectors + fatCount * fatSize)
    rootCluster := if fatSize16 = 0 then boot.get32 44 else 0
    sectorsPerCluster
    bytesPerCluster := sectorsPerCluster * 512
    fatSize
    totalSectors := if boot.get16 19 = 0 then boot.get32 32 else boot.get16 19 }

/-- `fat32_mount` up to the root inode. -/
def mount : Io (Option SbInfo) := do
  match ← bread 0 with
  | none => return none
  | some boot => return if boot.get16 510 ≠ 0xAA55 then none else some (sbInfo boot)

/-- From here on a FAT entry ends a chain. -/
abbrev endOfChain : Nat := 0x0FFFFFF8

variable (sbi : SbInfo)

def clusterToSector (cluster : Nat) : Nat :=
  wrap 32 (sbi.dataStartSector + wrapSub 32 cluster 2 * sbi.sectorsPerCluster)

def fatSector (cluster : Nat) : Nat :=
  wrap 32 (sbi.fatStartSector + wrap 32 (cluster * 4) / 512)

def fatOffset (cluster : Nat) : Nat := wrap 32 (cluster * 4) % 512

def nextCluster (cluster : Nat) : Io Nat := do
  match ← bread (fatSector sbi cluster) with
  | none => return 0x0FFFFFFF
  | some block => return block.get32 (fatOffset cluster) &&& 0x0FFFFFFF

def writeFatEntry (cluster value : Nat) : Io Int := do
  match ← bread (fatSector sbi cluster) with
  | none => return -1
  | some block => do
    let entry := block.get32 (fatOffset cluster)
    let entry := (entry &&& 0xF0000000) ||| (value &&& 0x0FFFFFFF)
    syncDirtyBuffer (fatSector sbi cluster) (block.put32 (fatOffset cluster) entry)
    return 0

/-- The loop of `fat32_find_free_cluster` with `steps` clusters to go. -/
def findFreeFrom : (steps cluster : Nat) → Io Nat
  | 0, _ => return 0
  | steps + 1, cluster => do
    let value ← nextCluster sbi cluster
    if value = 0 then return cluster else findFreeFrom steps (cluster + 1)

def maxCluster : Nat := sbi.totalSectors / sbi.sectorsPerCluster

def findFreeCluster : Io Nat := findFreeFrom sbi (maxCluster sbi - 2) 2

def freeCluster (cluster : Nat) : Io Unit := do
  let _ ← writeFatEntry sbi cluster 0
  return ()

/-- The loop that clears the sectors of a new cluster. -/
def clearSectors (sector : Nat) : (steps index : Nat) → Io Unit
  | 0, _ => return ()
  | steps + 1, index => do
    match ← bread (wrap 32 (sector + index)) with
    | none => clearSectors sector steps (index + 1)
    | some _ => do
      syncDirtyBuffer (wrap 32 (sector + index)) Block.zero
      clearSectors sector steps (index + 1)

/-- The link from `prev` to the new cluster, undone if it cannot be written. -/
def linkCluster (prev newCluster : Nat) : Io Bool :=
  if prev ≠ 0 then do
    let status ← writeFatEntry sbi prev newCluster
    if status < 0 then do
      let _ ← writeFatEntry sbi newCluster 0
      return false
    else return true
  else return true

def allocCluster (prev : Nat) : Io Nat := do
  let newCluster ← findFreeCluster sbi
  if newCluster = 0 then return 0
  else do
    let status ← writeFatEntry sbi newCluster 0x0FFFFFFF
    if status < 0 then return 0
    else do
      let linked ← linkCluster sbi prev newCluster
      if linked then do
        clearSectors (clusterToSector sbi newCluster) sbi.sectorsPerCluster 0
        return newCluster
      else return 0

/-! Directories. -/

/-- A string without its terminating zero. -/
abbrev CString := { bytes : List UInt8 // 0 ∉ bytes }

def upper (char : UInt8) : UInt8 := if 97 ≤ char ∧ char ≤ 122 then char - 32 else char

def nameField (width : Nat) (chars : List UInt8) : List UInt8 :=
  (chars.take width).map upper ++ List.replicate (width - chars.length) 32

def formatName (name : CString) : List UInt8 :=
  let base := name.val.takeWhile (· ≠ 46)
  let extension := (name.val.dropWhile (· ≠ 46)).drop 1
  nameField 8 base ++ nameField 3 extension

def entryName (block : Block) (slot : Nat) : UInt8 := block (32 * slot)

def entryAttr (block : Block) (slot : Nat) : UInt8 := block (32 * slot + 11)

def entryCluster (block : Block) (slot : Nat) : Nat :=
  block.get16 (32 * slot + 20) * 2 ^ 16 + block.get16 (32 * slot + 26)

def entrySize (block : Block) (slot : Nat) : Nat := block.get32 (32 * slot + 28)

def setEntrySize (block : Block) (slot size : Nat) : Block := block.put32 (32 * slot + 28) size

def slots : List Nat := List.range 16

def freeSlot (block : Block) : Option Nat :=
  slots.find? fun slot => entryName block slot = 0 ∨ entryName block slot = 0xE5

def writeEntry (block : Block) (slot : Nat) (fatName : List UInt8) (attr : UInt8)
    (cluster size : Nat) : Block :=
  let block := block.put (32 * slot) (List.replicate 32 0)
  let block := block.put (32 * slot) fatName
  let block := block.put (32 * slot + 11) [attr]
  let block := block.put16 (32 * slot + 20) (cluster / 2 ^ 16)
  let block := block.put16 (32 * slot + 26) cluster
  setEntrySize block slot size

/-- What `fat32_add_entry` writes. -/
structure NewEntry where
  name : CString
  cluster : Nat
  size : Nat
  isDir : Bool

def NewEntry.store (entry : NewEntry) (block : Block) (slot : Nat) : Block :=
  writeEntry block slot (formatName entry.name) (if entry.isDir then 0x10 else 0x20) entry.cluster
    entry.size

/-- The sectors of one directory cluster: `none` when no slot is free. -/
def addToSectors (entry : NewEntry) (sector : Nat) : (steps index : Nat) → Io (Option Int)
  | 0, _ => return none
  | steps + 1, index => do
    match ← bread (wrap 32 (sector + index)) with
    | none => return some (-1)
    | some block =>
      match freeSlot block with
      | some slot => do
        syncDirtyBuffer (wrap 32 (sector + index)) (entry.store block slot)
        return some 0
      | none => addToSectors entry sector steps (index + 1)

/-- The next cluster of a chain, allocated behind its end, or `none` when that
fails.  A link to cluster 0 is followed. -/
def nextOrAlloc (cluster : Nat) : Io (Option Nat) := do
  let next ← nextCluster sbi cluster
  if endOfChain ≤ next then do
    let next ← allocCluster sbi cluster
    return if next = 0 then none else some next
  else return some next

def addEntry (entry : NewEntry) : (fuel dirCluster : Nat) → Io Int
  | 0, _ => failure
  | fuel + 1, dirCluster => do
    match ← addToSectors entry (clusterToSector sbi dirCluster) sbi.sectorsPerCluster 0 with
    | some status => return status
    | none => do
      match ← nextOrAlloc sbi dirCluster with
      | none => return -1
      | some next => addEntry entry fuel next

structure Inode where
  ino : Nat
  size : Nat
deriving DecidableEq, Repr

/-- The part of `fat32_create` and `fat32_mkdir` that enters a new cluster into
the directory. -/
def createEntry (fuel : Nat) (dir : Nat) (name : CString) (isDir : Bool) : Io (Option Nat) := do
  let cluster ← allocCluster sbi 0
  if cluster = 0 then return none
  else do
    let status ← addEntry sbi { name, cluster, size := 0, isDir } fuel dir
    if status < 0 then do
      freeCluster sbi cluster
      return none
    else return some cluster

/-- `memory` is whether `new_inode` succeeds. -/
def create (fuel : Nat) (dir : Nat) (name : CString) (memory : Bool) : Io (Int × Option Inode) := do
  match ← createEntry sbi fuel dir name false with
  | none => return (-1, none)
  | some cluster => return if memory then (0, some { ino := cluster, size := 0 }) else (-1, none)

def dotName : CString := ⟨[46], by decide⟩

def dotDotName : CString := ⟨[46, 46], by decide⟩

def mkdir (fuel : Nat) (dir : Nat) (name : CString) (memory : Bool) : Io (Int × Option Inode) := do
  match ← createEntry sbi fuel dir name true with
  | none => return (-1, none)
  | some cluster =>
    if memory then do
      let parent := if dir = sbi.rootCluster then 0 else dir
      let _ ← addEntry sbi { name := dotName, cluster, size := 0, isDir := true } fuel cluster
      let _ ← addEntry sbi { name := dotDotName, cluster := parent, size := 0, isDir := true } fuel
        cluster
      return (0, some { ino := cluster, size := 0 })
    else return (-1, none)

/-! Reading and writing. -/

/-- The loop of `fat32_read` over the clusters in front of the offset. -/
def skipClusters : (steps cluster : Nat) → Io (Option Nat)
  | 0, cluster => return some cluster
  | steps + 1, cluster => do
    let next ← nextCluster sbi cluster
    if endOfChain ≤ next then return none else skipClusters steps next

def copyBytes (block : Block) (offset count : Nat) : List UInt8 :=
  (List.range count).map fun index => block (offset + index)

/-- Where `fat32_read` is: the bytes it has copied, and the offset that is left
to skip in the current sector. -/
structure ReadState where
  bytes : List UInt8
  clusterOffset : Nat

/-- The sectors of one cluster; the flag is false when a `bread` failed. -/
def readSectors (count sector : Nat) : (steps index : Nat) → ReadState → Io (Bool × ReadState)
  | 0, _, state => return (true, state)
  | steps + 1, index, state =>
    if count ≤ state.bytes.length then return (true, state)
    else if 512 ≤ state.clusterOffset then
      readSectors count sector steps (index + 1)
        { state with clusterOffset := state.clusterOffset - 512 }
    else do
      match ← bread (wrap 32 (sector + index)) with
      | none => return (false, state)
      | some block =>
        let toCopy := min (512 - state.clusterOffset) (count - state.bytes.length)
        let bytes := state.bytes ++ copyBytes block state.clusterOffset toCopy
        readSectors count sector steps (index + 1) { bytes, clusterOffset := 0 }

def readClusters (count : Nat) : (fuel cluster : Nat) → ReadState → Io (Bool × ReadState)
  | 0, _, _ => failure
  | fuel + 1, cluster, state =>
    if count ≤ state.bytes.length then return (true, state)
    else if endOfChain ≤ cluster then return (true, state)
    else do
      let (ok, state) ← readSectors count (clusterToSector sbi cluster) sbi.sectorsPerCluster 0 state
      if ok then do
        let next ← nextCluster sbi cluster
        readClusters count fuel next state
      else return (false, state)

/-- The return value with the bytes copied; the offset advances by their
number. -/
def read (fuel : Nat) (inode : Inode) (offset count : Nat) : Io (Int × List UInt8) :=
  if inode.size ≤ offset then return (0, [])
  else do
    let count := if inode.size < offset + count then inode.size - offset else count
    match ← skipClusters sbi (wrap 32 (offset / sbi.bytesPerCluster)) inode.ino with
    | none => return (0, [])
    | some cluster => do
      let clusterOffset := offset % sbi.bytesPerCluster
      let (ok, state) ← readClusters sbi count fuel cluster { bytes := [], clusterOffset }
      return (if ok then (state.bytes.length : Int) else -1, state.bytes)

inductive Scan where
  | stop
  | found (slot : Nat)
  | absent

/-- The slots of one directory sector that `fat32_update_inode_size` looks at. -/
def scanSlots (block : Block) (ino : Nat) : List Nat → Scan
  | [] => .absent
  | slot :: rest =>
    if entryName block slot = 0 then .stop
    else if entryName block slot = 0xE5 then scanSlots block ino rest
    else if entryAttr block slot = 0x0F then scanSlots block ino rest
    else if entryCluster block slot = ino then .found slot
    else scanSlots block ino rest

def updateSectors (ino size sector : Nat) : (steps index : Nat) → Io (Option Int)
  | 0, _ => return none
  | steps + 1, index => do
    match ← bread (wrap 32 (sector + index)) with
    | none => return some (-1)
    | some block =>
      match scanSlots block ino slots with
      | .stop => return some (-1)
      | .found slot => do
        syncDirtyBuffer (wrap 32 (sector + index)) (setEntrySize block slot size)
        return some 0
      | .absent => updateSectors ino size sector steps (index + 1)

def updateClusters (inode : Inode) : (fuel cluster : Nat) → Io Int
  | 0, _ => failure
  | fuel + 1, cluster =>
    if endOfChain ≤ cluster then return -1
    else do
      match ← updateSectors inode.ino inode.size (clusterToSector sbi cluster)
          sbi.sectorsPerCluster 0 with
      | some status => return status
      | none => do
        let next ← nextCluster sbi cluster
        updateClusters inode fuel next

/-- `dir` is the first cluster of the directory, `none` for a dentry without
parent. -/
def updateInodeSize (fuel : Nat) (inode : Inode) (dir : Option Nat) : Io Int :=
  match dir with
  | none => return -1
  | some cluster => updateClusters sbi inode fuel cluster

/-- The walk of `fat32_write` to the cluster of the offset: the cluster and the
position in it. -/
def seekCluster : (fuel cluster targetPos : Nat) → Io (Option (Nat × Nat))
  | 0, _, _ => failure
  | fuel + 1, cluster, targetPos =>
    if targetPos < sbi.sectorsPerCluster * 512 then return some (cluster, targetPos)
    else do
      match ← nextOrAlloc sbi cluster with
      | none => return none
      | some next => seekCluster fuel next (targetPos - sbi.sectorsPerCluster * 512)

structure WriteState where
  written : Nat
  targetPos : Nat
  offset : Nat
  inode : Inode

/-- What `fat32_write` does when it has reached `offset`. -/
def growInode (fuel : Nat) (dir : Option Nat) (inode : Inode) (offset : Nat) : Io Inode :=
  if inode.size < offset then do
    let _ ← updateInodeSize sbi fuel { inode with size := offset } dir
    return { inode with size := offset }
  else return inode

/-- The sectors of one cluster; the flag is false when a `bread` failed. -/
def writeSectors (fuel : Nat) (dir : Option Nat) (bytes : List UInt8) (sector : Nat) :
    (steps index offsetInCluster : Nat) → WriteState → Io (Bool × WriteState)
  | 0, _, _, state => return (true, state)
  | steps + 1, index, offsetInCluster, state =>
    if bytes.length ≤ state.written then return (true, state)
    else if 512 ≤ offsetInCluster then
      writeSectors fuel dir bytes sector steps (index + 1) (offsetInCluster - 512) state
    else do
      match ← bread (wrap 32 (sector + index)) with
      | none => return (false, state)
      | some block => do
        let toWrite := min (512 - offsetInCluster) (bytes.length - state.written)
        let chunk := (bytes.drop state.written).take toWrite
        syncDirtyBuffer (wrap 32 (sector + index)) (block.put offsetInCluster chunk)
        let offset := state.offset + toWrite
        let inode ← growInode sbi fuel dir state.inode offset
        writeSectors fuel dir bytes sector steps (index + 1) 0
          { written := state.written + toWrite, targetPos := 0, offset, inode }

def writeClusters (dir : Option Nat) (bytes : List UInt8) :
    (fuel cluster : Nat) → WriteState → Io (Int × WriteState)
  | 0, _, _ => failure
  | fuel + 1, cluster, state =>
    if bytes.length ≤ state.written then return (state.written, state)
    else do
      let (ok, state) ← writeSectors sbi fuel dir bytes (clusterToSector sbi cluster)
        sbi.sectorsPerCluster 0 state.targetPos state
      if ok then
        if state.written < bytes.length then do
          match ← nextOrAlloc sbi cluster with
          | none => return (state.written, state)
          | some next => writeClusters dir bytes fuel next state
        else return (state.written, state)
      else return (-1, state)

/-- The return value and the inode afterwards. -/
def write (fuel : Nat) (inode : Inode) (dir : Option Nat) (bytes : List UInt8) (offset : Nat) :
    Io (Int × Inode) :=
  if bytes.length = 0 then return (0, inode)
  else do
    match ← seekCluster sbi fuel inode.ino (wrap 32 offset) with
    | none => return (-1, inode)
    | some (cluster, targetPos) => do
      let (status, state) ← writeClusters sbi dir bytes fuel cluster
        { written := 0, targetPos, offset, inode }
      return (status, state.inode)

end Rucix.Fs.Fat32
