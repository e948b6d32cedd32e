import Rucix.Fs.Fat32.Create
import Rucix.Fs.Fat32.Read
import Rucix.Fs.Fat32.Write

namespace Rucix.Fs.Fat32

open Rucix.Data List Block

/-! The bytes of directory entries, and the entry of one file. -/

variable {after : Volume} {chains : Nat → List Nat} {ino found slot position : Nat} {block : Block}
  {entry : NewEntry}

theorem nameField_length : (nameField width chars).length = width := by
  rw [nameField, length_append, length_map, length_take, length_replicate]
  omega

theorem formatName_length (name : CString) : (formatName name).length = 11 := by
  rw [formatName, length_append, nameField_length, nameField_length]

theorem upper_eq (same : upper char = value) (outside : value < 65 ∨ 90 < value) : char = value := by
  rw [upper] at same
  split at same
  · rename_i letter
    rw [← same] at outside
    have low : 97 ≤ char.toNat := UInt8.le_iff_toNat_le.mp letter.1
    have high : char.toNat ≤ 122 := UInt8.le_iff_toNat_le.mp letter.2
    have shifted : (char - 32).toNat = char.toNat - 32 :=
      UInt8.toNat_sub_of_le _ _ (UInt8.le_iff_toNat_le.mpr (show 32 ≤ char.toNat by omega))
    rcases outside with less | more
    · have less : (char - 32).toNat < 65 := UInt8.lt_iff_toNat_lt.mp less
      omega
    · have more : 90 < (char - 32).toNat := UInt8.lt_iff_toNat_lt.mp more
      omega
  · exact same

/-- The first byte of a name is a blank or comes from the first character. -/
theorem formatName_head (isFirst : (formatName name)[0]? = some first) :
    first = 32 ∨ ∃ char, name.val.head? = some char ∧ first = upper char := by
  cases base : name.val.takeWhile (· ≠ 46) with
  | nil =>
    rw [formatName, base] at isFirst
    exact .inl (Option.some.inj isFirst).symm
  | cons char rest =>
    rw [formatName, base] at isFirst
    refine .inr ⟨char, ?_, (Option.some.inj isFirst).symm⟩
    rw [← takeWhile_append_dropWhile (l := name.val), base]
    rfl

theorem formatName_head_ne (notBlank : mark ≠ 32) (outside : mark < 65 ∨ 90 < mark)
    (different : name.val.head? ≠ some mark) : (formatName name)[0]? ≠ some mark := by
  intro isFirst
  rcases formatName_head isFirst with blank | ⟨char, isChar, same⟩
  · exact notBlank blank
  · rw [upper_eq same.symm outside] at isChar
    exact different isChar

theorem formatName_head_ne_zero : (formatName name)[0]? ≠ some 0 :=
  formatName_head_ne (by decide) (.inl (by decide)) fun first =>
    name.property (mem_of_mem_head? first)

/-- An entry that the searches through a directory consider. -/
def Live (block : Block) (slot : Nat) : Prop :=
  entryName block slot ≠ 0 ∧ entryName block slot ≠ 0xE5 ∧ entryAttr block slot ≠ 0x0F

def entryFullName (block : Block) (slot : Nat) : List UInt8 := copyBytes block (32 * slot) 11

theorem store_outside (outside : position < 32 * slot ∨ 32 * slot + 32 ≤ position) :
    entry.store block slot position = block position := by
  have length := formatName_length entry.name
  simp only [NewEntry.store, writeEntry, setEntrySize, put32, put16]
  rw [put_outside (by rw [bytes32_length]; omega),
    put_outside (by rw [bytes16_length]; omega),
    put_outside (by rw [bytes16_length]; omega),
    put_outside (by rw [length_singleton]; omega), put_outside (by omega),
    put_outside (by rw [length_replicate]; omega)]

theorem entryFullName_store : entryFullName (entry.store block slot) slot = formatName entry.name := by
  have length := formatName_length entry.name
  refine ext_getElem (by rw [entryFullName, copyBytes_length, length]) fun index inside _ => ?_
  simp only [entryFullName, copyBytes, getElem_map, getElem_range, NewEntry.store, writeEntry,
    setEntrySize, put32, put16]
  rw [put_outside (by omega), put_outside (by omega), put_outside (by omega),
    put_outside (by omega), put_inside (by omega)]

theorem entryAttr_store : entryAttr (entry.store block slot) slot = if entry.isDir then 0x10 else 0x20 := by
  simp only [entryAttr, NewEntry.store, writeEntry, setEntrySize, put32, put16]
  rw [put_outside (by omega), put_outside (by omega), put_outside (by omega)]
  exact put_inside (show 0 < [_].length by simp)

theorem entryCluster_store (small : entry.cluster < 2 ^ 32) :
    entryCluster (entry.store block slot) slot = entry.cluster := by
  have high : (entry.store block slot).get16 (32 * slot + 20) = entry.cluster / 2 ^ 16 % 2 ^ 16 := by
    rw [NewEntry.store, writeEntry, setEntrySize, put32, get16_put_outside (by omega),
      put16, get16_put_outside (by omega), get16_put16]
  have low : (entry.store block slot).get16 (32 * slot + 26) = entry.cluster % 2 ^ 16 := by
    rw [NewEntry.store, writeEntry, setEntrySize, put32, get16_put_outside (by omega),
      get16_put16]
  rw [entryCluster]
  omega

theorem entrySize_store : entrySize (entry.store block slot) slot = wrap 32 entry.size :=
  get32_put32 ..

def Passes (block : Block) (ino slot : Nat) : Prop :=
  entryName block slot ≠ 0 ∧ (Live block slot → entryCluster block slot ≠ ino)

theorem scanSlots_append (passes : ∀ slot ∈ early, Passes block ino slot) :
    scanSlots block ino (early ++ late) = scanSlots block ino late := by
  induction early with
  | nil => rfl
  | cons slot early ih =>
    obtain ⟨used, other⟩ := passes slot mem_cons_self
    have rest := ih fun slot listed => passes slot (mem_cons_of_mem _ listed)
    rw [cons_append, scanSlots, if_neg used]
    split
    · exact rest
    · split
      · exact rest
      · rename_i notDeleted notLong
        rw [if_neg (other ⟨used, notDeleted, notLong⟩)]
        exact rest

theorem scanSlots_absent (passes : ∀ slot ∈ list, Passes block ino slot) : scanSlots block ino list = .absent := by
  rw [← append_nil list, scanSlots_append passes]
  rfl

theorem scanSlots_found (passes : ∀ slot ∈ early, Passes block ino slot) (live : Live block slot)
    (named : entryCluster block slot = ino) : scanSlots block ino (early ++ slot :: late) = .found slot := by
  rw [scanSlots_append passes, scanSlots, if_neg live.1, if_neg live.2.1, if_neg live.2.2, if_pos named]

theorem entry_of_found (scanned : scanSlots block ino list = .found slot) :
    slot ∈ list ∧ entryCluster block slot = ino := by
  fun_induction scanSlots block ino list with
  | case1 | case2 => cases scanned
  | case3 _ _ _ _ ih | case4 _ _ _ _ _ ih | case6 _ _ _ _ _ _ ih => exact (ih scanned).imp_left (mem_cons_of_mem _)
  | case5 _ _ _ _ _ named =>
    cases scanned
    exact ⟨mem_cons_self, named⟩

theorem scanSlots_congr (name : ∀ slot, entryName other slot = entryName block slot)
    (attr : ∀ slot, entryAttr other slot = entryAttr block slot)
    (cluster : ∀ slot, entryCluster other slot = entryCluster block slot) (list : List Nat) :
    scanSlots other ino list = scanSlots block ino list := by
  induction list with
  | nil => rfl
  | cons slot list ih => simp only [scanSlots, name, attr, cluster, ih]

theorem entryName_setEntrySize (slot size other : Nat) :
    entryName (setEntrySize block slot size) other = entryName block other :=
  put_outside (by rw [bytes32_length]; omega)

theorem entryAttr_setEntrySize (slot size other : Nat) :
    entryAttr (setEntrySize block slot size) other = entryAttr block other :=
  put_outside (by rw [bytes32_length]; omega)

theorem entryCluster_setEntrySize (slot size other : Nat) :
    entryCluster (setEntrySize block slot size) other = entryCluster block other := by
  rw [entryCluster, entryCluster, setEntrySize, put32,
    get16_put_outside (by rw [bytes32_length]; omega),
    get16_put_outside (by rw [bytes32_length]; omega)]

theorem scanSlots_setEntrySize :
    scanSlots (setEntrySize block slot size) ino list = scanSlots block ino list :=
  scanSlots_congr (entryName_setEntrySize slot size) (entryAttr_setEntrySize slot size)
    (entryCluster_setEntrySize slot size) list

theorem passes_of_freeSlot_none (full : freeSlot block = none)
    (unnamed : ∀ slot, Live block slot → entryCluster block slot ≠ ino) : ∀ slot ∈ slots, Passes block ino slot := by
  intro slot listed
  have taken := find?_eq_none.mp full slot listed
  rw [decide_eq_true_iff, not_or] at taken
  exact ⟨taken.1, unnamed slot⟩

theorem slots_of_freeSlot_some (free : freeSlot block = some slot)
    (unnamed : ∀ slot, Live block slot → entryCluster block slot ≠ ino) :
    ∃ early late, slots = early ++ slot :: late ∧ ∀ other ∈ early, other ≠ slot ∧ Passes block ino other := by
  obtain ⟨-, early, late, split, taken⟩ := find?_eq_some_iff_append.mp free
  refine ⟨early, late, split, fun other listed => ⟨?_, ?_, unnamed other⟩⟩
  · rintro rfl
    have distinct : slots.Nodup := nodup_range
    rw [split] at distinct
    exact disjoint_of_nodup_append distinct listed mem_cons_self
  · have taken := taken other listed
    simp only [Bool.not_eq_true', decide_eq_false_iff_not, not_or] at taken
    exact taken.1

theorem passes_store (different : other ≠ slot) (passes : Passes block ino other) :
    Passes (entry.store block slot) ino other := by
  have same : ∀ offset, offset < 32 →
      entry.store block slot (32 * other + offset) = block (32 * other + offset) :=
    fun offset small => store_outside (by omega)
  have name : entryName (entry.store block slot) other = entryName block other := same 0 (by omega)
  have attr : entryAttr (entry.store block slot) other = entryAttr block other := same 11 (by omega)
  have cluster : entryCluster (entry.store block slot) other = entryCluster block other := by
    rw [entryCluster, entryCluster, get16_congr (same 20 (by omega)) (same 21 (by omega)),
      get16_congr (same 26 (by omega)) (same 27 (by omega))]
  rw [Passes, Live, name, attr, cluster]
  exact passes

theorem scanSlots_store (free : freeSlot block = some slot)
    (unnamed : ∀ slot, Live block slot → entryCluster block slot ≠ entry.cluster) (small : entry.cluster < 2 ^ 32)
    (visible : (formatName entry.name)[0]? ≠ some 0xE5) :
    scanSlots (entry.store block slot) entry.cluster slots = .found slot := by
  obtain ⟨early, late, split, before⟩ := slots_of_freeSlot_some free unnamed
  have first : (formatName entry.name)[0]? = some (entryName (entry.store block slot) slot) := by
    have full : entryFullName (entry.store block slot) slot = _ := entryFullName_store
    rw [← full]
    rfl
  rw [split]
  refine scanSlots_found (fun other listed => passes_store (before other listed).1 (before other listed).2)
    ⟨fun zero => ?_, fun deleted => ?_, ?_⟩ (entryCluster_store small)
  · exact formatName_head_ne_zero (zero ▸ first)
  · exact visible (deleted ▸ first)
  · rw [entryAttr_store]
    split <;> decide

namespace Located

variable (located : Located sbi volume dirs ino found index slot)
include located

theorem found_mem : found ∈ dirs := by
  obtain ⟨early, late, rfl, -⟩ := located.place
  simp

theorem congr (same : ∀ cluster ∈ dirs, after.data cluster = volume.data cluster) :
    Located sbi after dirs ino found index slot := by
  have isFound := same found located.found_mem
  obtain ⟨⟨early, late, split, absent⟩, inside, before, scanned⟩ := located
  refine ⟨⟨early, late, split, fun cluster listed => ?_⟩, inside, ?_, ?_⟩
  · rw [same cluster (by simp [split, listed])]
    exact absent cluster listed
  all_goals rwa [isFound]

theorem resize :
    Located sbi (volume.setData found index (setEntrySize (volume.data found index) slot size)) dirs ino
      found index slot := by
  obtain ⟨⟨early, late, split, absent⟩, inside, before, scanned⟩ := located
  have notEarly : found ∉ early := fun listed => by
    cases scanned.symm.trans (absent found listed index inside)
  refine ⟨⟨early, late, split, fun cluster listed => ?_⟩, inside, fun other less => ?_, ?_⟩
  · rw [Volume.setData_of_ne (ne_of_mem_of_not_mem listed notEarly)]
    exact absent cluster listed
  · rw [Volume.setData_index_of_ne less.ne]
    exact before other less
  · rw [Volume.setData_self, scanSlots_setEntrySize]
    exact scanned

omit located in
theorem updateInodeSize (geometry : Geometry sbi) (wellFormed : Chains sbi volume.fat chains)
    (directory : IsDirectory chains (some dir) dirs) (located : Located sbi volume dirs ino found index slot)
    :
    Finishes (Represents sbi) (fun fuel => Fat32.updateInodeSize sbi fuel { ino, size } (some dir)) volume 0
      (volume.setData found index (setEntrySize (volume.data found index) slot size)) := by
  rw [← directory dir rfl] at located
  exact updateClusters_located geometry wellFormed located

end Located

structure Recorded (sbi : SbInfo) (dirs : List Nat) (ino : Nat) (name : CString)
    (found index slot : Nat) (size : Nat) (volume : Volume) : Prop where
  located : Located sbi volume dirs ino found index slot
  name : entryFullName (volume.data found index) slot = formatName name
  size : entrySize (volume.data found index) slot = wrap 32 size

theorem Added.recorded (added : Added sbi dir entry volume chains after afterChains)
    (unnamed : ∀ cluster ∈ chains dir, ∀ index, index < sbi.sectorsPerCluster → ∀ slot,
      Live (volume.data cluster index) slot →
        entryCluster (volume.data cluster index) slot ≠ entry.cluster) (wellFormed : Chains sbi volume.fat chains)
    (small : entry.cluster < 2 ^ 32) (visible : (formatName entry.name)[0]? ≠ some 0xE5) :
    ∃ found index slot, Recorded sbi (afterChains dir) entry.cluster entry.name found index slot entry.size
      after := by
  obtain ⟨middle, early, found, late, index, slot, grows, shape, occupied, inside, taken, free, rfl⟩ :=
    added.place
  have unnamed : ∀ cluster ∈ afterChains dir, ∀ index, index < sbi.sectorsPerCluster → ∀ slot,
      Live (middle.data cluster index) slot →
        entryCluster (middle.data cluster index) slot ≠ entry.cluster := by
    intro cluster listed index inside slot live
    by_cases old : cluster ∈ chains dir
    · rw [grows.kept cluster (wellFormed.fat_ne_zero old)] at live ⊢
      exact unnamed cluster old index inside slot live
    · rw [grows.cleared cluster listed old index inside] at live
      exact absurd rfl live.1
  have distinct := grows.wellFormed.lists.nodup dir
  rw [shape] at distinct
  have notEarly : found ∉ early := fun listed =>
    disjoint_of_nodup_append distinct listed mem_cons_self
  refine ⟨found, index, slot, ⟨⟨early, late, shape, fun cluster listed position within => ?_⟩, inside,
    fun other less => ?_, ?_⟩, ?_, ?_⟩
  · rw [Volume.setData_of_ne (ne_of_mem_of_not_mem listed notEarly)]
    exact scanSlots_absent (passes_of_freeSlot_none (occupied cluster listed position within)
      (unnamed cluster (by simp [shape, listed]) position within))
  · rw [Volume.setData_index_of_ne less.ne]
    exact scanSlots_absent (passes_of_freeSlot_none (taken other less)
      (unnamed found (by simp [shape]) other (by omega)))
  · rw [Volume.setData_self]
    exact scanSlots_store free (unnamed found (by simp [shape]) index inside) small visible
  · rw [Volume.setData_self, entryFullName_store]
  · rw [Volume.setData_self, entrySize_store]

namespace Recorded

variable {name : CString} {size : Nat}

variable (recorded : Recorded sbi dirs ino name found index slot size volume)
include recorded

theorem found_mem : found ∈ dirs :=
  recorded.located.found_mem

theorem congr (same : ∀ cluster ∈ dirs, after.data cluster = volume.data cluster) :
    Recorded sbi dirs ino name found index slot size after := by
  have isFound := same found recorded.found_mem
  refine ⟨recorded.located.congr same, ?_, ?_⟩
  · rw [isFound]
    exact recorded.name
  · rw [isFound]
    exact recorded.size

theorem resize : Recorded sbi dirs ino name found index slot newSize
      (volume.setData found index (setEntrySize (volume.data found index) slot newSize)) := by
  refine ⟨recorded.located.resize, ?_, ?_⟩
  · rw [Volume.setData_self, ← recorded.name]
    refine copyBytes_congr fun offset small => put_outside ?_
    omega
  · rw [Volume.setData_self]
    exact get32_put32

omit recorded in
theorem keeper (geometry : Geometry sbi) :
    Keeper sbi ino (some dir) dirs (Recorded sbi dirs ino name found index slot) where
  stable recorded same := recorded.congr same
  update := by
    intro volume chains old newSize wellFormed directory recorded
    refine ⟨0, _, recorded.located.updateInodeSize geometry wellFormed directory, rfl, rfl,
      fun cluster outside => ?_, recorded.resize⟩
    exact Volume.setData_of_ne fun same => outside (same ▸ recorded.found_mem)

end Recorded

end Rucix.Fs.Fat32
