import Rucix.Fs.Fat32.Growth

namespace Rucix.Fs.Fat32

open Rucix.Data List

/-! Directory entries: adding one, and updating the size in one. -/

variable {sbi : SbInfo} {volume after : Volume} {chains afterChains : Nat → List Nat}
  {dir cluster ino size : Nat} {rest : List Nat} {entry : NewEntry}

/-! Searches, by clusters and their sectors. -/

def Quiet (sbi : SbInfo) (volume : Volume) (passes : Block → Prop) (cluster : Nat) : Prop :=
  ∀ index < sbi.sectorsPerCluster, passes (volume.data cluster index)

theorem quiet_or_first : Quiet sbi volume passes cluster ∨
      ∃ index < sbi.sectorsPerCluster, (∀ earlier < index, passes (volume.data cluster earlier)) ∧
        ¬passes (volume.data cluster index) := by
  rw [Quiet]
  induction sbi.sectorsPerCluster with
  | zero => exact .inl nofun
  | succ bound ih =>
    rcases ih with all | ⟨index, below, first⟩
    · by_cases last : passes (volume.data cluster bound)
      · exact .inl (Nat.forall_lt_succ_right.mpr ⟨all, last⟩)
      · exact .inr ⟨bound, Nat.lt_succ_self bound, all, last⟩
    · exact .inr ⟨index, Nat.lt_succ_of_lt below, first⟩

/-- All sectors of the clusters have `passes`, or there is a first one without. -/
theorem all_quiet_or_first (sbi : SbInfo) (volume : Volume) (clusters : List Nat) :
    (∀ cluster ∈ clusters, Quiet sbi volume passes cluster) ∨
      ∃ early found late index, clusters = early ++ found :: late ∧
        (∀ cluster ∈ early, Quiet sbi volume passes cluster) ∧ index < sbi.sectorsPerCluster ∧
        (∀ earlier < index, passes (volume.data found earlier)) ∧ ¬passes (volume.data found index) := by
  induction clusters with
  | nil => exact .inl nofun
  | cons cluster clusters ih =>
    rcases quiet_or_first with quiet | ⟨index, inside, before, fails⟩
    · rcases ih with all | ⟨early, found, late, index, rfl, before, first⟩
      · exact .inl (forall_mem_cons.mpr ⟨quiet, all⟩)
      · exact .inr ⟨cluster :: early, found, late, index, rfl, forall_mem_cons.mpr ⟨quiet, before⟩, first⟩
    · exact .inr ⟨[], cluster, clusters, index, rfl, nofun, inside, before, fails⟩

/-- The loop `sectors` over the sectors of a cluster, and the loop `walk` over the clusters
of a chain, go on behind sectors with `passes`. -/
structure Search {α : Type} (sbi : SbInfo) (volume : Volume) (passes : Block → Prop)
    (sectors : Nat → Nat → Nat → Io (Option α)) (walk : Nat → Nat → Io α) : Prop where
  ended : ∀ cluster index, Yields (Represents sbi) (sectors cluster 0 index) volume none volume
  pass : ∀ {cluster index steps result after}, Placed sbi cluster → index < sbi.sectorsPerCluster →
    passes (volume.data cluster index) →
    Yields (Represents sbi) (sectors cluster steps (index + 1)) volume result after →
    Yields (Represents sbi) (sectors cluster (steps + 1) index) volume result after
  stop : ∀ {cluster result after}, Placed sbi cluster →
    Yields (Represents sbi) (sectors cluster sbi.sectorsPerCluster 0) volume (some result) after →
    Finishes (Represents sbi) (fun fuel => walk fuel cluster) volume result after
  next : ∀ {cluster result after}, Placed sbi cluster → Placed sbi (volume.fat cluster) →
    Yields (Represents sbi) (sectors cluster sbi.sectorsPerCluster 0) volume none volume →
    Finishes (Represents sbi) (fun fuel => walk fuel (volume.fat cluster)) volume result after →
    Finishes (Represents sbi) (fun fuel => walk fuel cluster) volume result after

namespace Search

variable {α : Type} {passes : Block → Prop} {sectors : Nat → Nat → Nat → Io (Option α)}
  {walk : Nat → Nat → Io α} {found index : Nat} {result : α}

variable (search : Search sbi volume passes sectors walk)
include search

theorem skip (placed : Placed sbi cluster) {count steps : Nat} {result : Option α}
    (bound : count ≤ sbi.sectorsPerCluster) (quiet : ∀ index < count, passes (volume.data cluster index))
    (rest : Yields (Represents sbi) (sectors cluster steps count) volume result after) :
    Yields (Represents sbi) (sectors cluster (steps + count) 0) volume result after := by
  induction count generalizing steps with
  | zero => exact rest
  | succ count ih =>
    have last := search.pass placed bound (quiet count (Nat.lt_succ_self count)) rest
    rw [show steps + (count + 1) = steps + 1 + count by omega]
    exact ih (Nat.le_of_succ_le bound) (fun index below => quiet index (Nat.lt_succ_of_lt below)) last

theorem none (placed : Placed sbi cluster) (quiet : Quiet sbi volume passes cluster) :
    Yields (Represents sbi) (sectors cluster sbi.sectorsPerCluster 0) volume none volume := by
  have searched := search.skip placed le_rfl quiet (search.ended cluster _)
  rwa [Nat.zero_add] at searched

section

variable (wellFormed : Chains sbi volume.fat chains) (shape : chains dir = early ++ found :: late)
  (quiet : ∀ cluster ∈ early, Quiet sbi volume passes cluster)
include wellFormed shape quiet

theorem reach (here : Finishes (Represents sbi) (fun fuel => walk fuel found) volume result after) :
    Finishes (Represents sbi) (fun fuel => walk fuel dir) volume result after := by
  induction early using List.reverseRecOn generalizing found late with
  | nil =>
    have same : found = dir := wellFormed.starts dir found (by simp [shape])
    rwa [← same]
  | append_singleton early last ih =>
    rw [append_assoc] at shape
    have link := wellFormed.fat_link shape
    have placed := wellFormed.placed dir last (by simp [shape])
    refine ih shape (fun cluster member => quiet cluster (mem_append_left _ member)) ?_
    refine search.next placed ?_ (search.none placed (quiet last (by simp))) ?_
    · rw [link]
      exact wellFormed.placed dir found (by simp [shape])
    · rwa [link]

theorem first (inside : index < sbi.sectorsPerCluster)
    (passed : ∀ earlier < index, passes (volume.data found earlier))
    (here : ∀ steps, Yields (Represents sbi) (sectors found (steps + 1) index) volume (some result) after) :
    Finishes (Represents sbi) (fun fuel => walk fuel dir) volume result after := by
  have placed := wellFormed.placed dir found (by simp [shape])
  have searched := search.skip placed inside.le passed (here (sbi.sectorsPerCluster - index - 1))
  rw [show sbi.sectorsPerCluster - index - 1 + 1 + index = sbi.sectorsPerCluster by omega] at searched
  exact search.reach wellFormed shape quiet (search.stop placed searched)

end

end Search

def Occupied (sbi : SbInfo) (volume : Volume) (clusters : List Nat) : Prop :=
  ∀ cluster ∈ clusters, ∀ index, index < sbi.sectorsPerCluster →
    freeSlot (volume.data cluster index) = none

/-- The entry is in the first free slot of the directory, which may have grown
for it. -/
structure Added (sbi : SbInfo) (dir : Nat) (entry : NewEntry) (volume : Volume)
    (chains : Nat → List Nat) (after : Volume) (afterChains : Nat → List Nat) : Prop where
  intro ::
  place : ∃ middle early found late index slot,
    Grows sbi dir volume chains middle afterChains ∧ afterChains dir = early ++ found :: late ∧
    Occupied sbi middle early ∧ index < sbi.sectorsPerCluster ∧
    (∀ other, other < index → freeSlot (middle.data found other) = none) ∧
    freeSlot (middle.data found index) = some slot ∧
    after = middle.setData found index (entry.store (middle.data found index) slot)

theorem Added.effect (added : Added sbi dir entry volume chains after afterChains) :
    Effect sbi dir [] volume chains after afterChains := by
  obtain ⟨middle, early, found, late, index, slot, grows, shape, -, -, -, -, rfl⟩ := added.place
  refine grows.toEffect.trans (.of_data grows.wellFormed rfl rfl fun cluster outside _ => ?_)
  refine Volume.setData_of_ne fun same => ?_
  rw [same] at outside
  exact outside (by simp [shape])

theorem freeSlot_zero : freeSlot Block.zero = some 0 := by decide +kernel

theorem addEntry_of_next {next : Nat} (searched : Yields (Represents sbi)
      (addToSectors entry (clusterToSector sbi cluster) sbi.sectorsPerCluster 0) volume none volume)
    (found : Yields (Represents sbi) (nextOrAlloc sbi cluster) volume (some next) middle)
    (finishes : Finishes (Represents sbi) (fun fuel => addEntry sbi entry fuel next) middle status after) :
    Finishes (Represents sbi) (fun fuel => addEntry sbi entry fuel cluster) volume status after := by
  refine .succ ?_
  exact .bind searched (.bind found finishes)

variable (geometry : Geometry sbi)
include geometry

theorem addSearch (entry : NewEntry) (volume : Volume) :
    Search sbi volume (freeSlot · = none) (fun cluster => addToSectors entry (clusterToSector sbi cluster))
      (addEntry sbi entry) where
  ended _ _ := .pure
  pass placed inside full searched := by
    refine .bind (bread_yields placed inside) ?_
    simp only [full]
    exact searched
  stop _ stored := by
    refine .succ ?_
    exact .bind stored (.pure)
  next placed next searched finishes := by
    refine addEntry_of_next searched (.bind (nextCluster_yields geometry placed.toIndexed volume) ?_) finishes
    rw [if_neg (not_le.mpr next.lt_end)]
    exact .pure

theorem addToSectors_stores (placed : Placed sbi cluster) (entry : NewEntry) (inside : index < sbi.sectorsPerCluster)
    (free : freeSlot (volume.data cluster index) = some slot) (steps : Nat) :
    Yields (Represents sbi) (addToSectors entry (clusterToSector sbi cluster) (steps + 1) index) volume
      (some 0) (volume.setData cluster index (entry.store (volume.data cluster index) slot)) := by
  refine .bind (bread_yields placed inside) ?_
  simp only [free]
  exact .bind (sync_yields geometry placed inside volume) (.pure)

omit geometry in
/-- Either there is neither a slot nor a cluster left, or the entry is added. -/
theorem addEntry_finishes (addressable : Addressable sbi) (wellFormed : Chains sbi volume.fat chains)
    (entry : NewEntry) (used : chains dir ≠ []) : ∃ status after afterChains,
      Finishes (Represents sbi) (fun fuel => addEntry sbi entry fuel dir) volume status after ∧
      ((status = -1 ∧ after = volume ∧ afterChains = chains ∧ freeClusters sbi volume.fat = ∅) ∨
        (status = 0 ∧ Added sbi dir entry volume chains after afterChains)) := by
  have geometry := addressable.toGeometry
  have search := addSearch geometry entry volume
  rcases all_quiet_or_first sbi volume (chains dir) with
    occupied | ⟨early, found, late, index, shape, occupied, inside, full, some⟩
  · obtain ⟨before, last, shape⟩ := (eq_nil_or_concat' (chains dir)).resolve_left used
    have searched := search.none (wellFormed.placed dir last (by simp [shape])) (occupied last (by simp [shape]))
    have passed : ∀ cluster ∈ before, Quiet sbi volume (freeSlot · = none) cluster :=
      fun cluster member => occupied cluster (by simp [shape, member])
    rcases nextOrAlloc_yields addressable wellFormed shape with
      ⟨next, behind, impossible, -⟩ | ⟨-, full, failed⟩ | ⟨-, new, grown, returned, allocated⟩
    · cases impossible
    · refine ⟨-1, volume, chains, search.reach wellFormed shape passed (.succ ?_), .inl ⟨rfl, rfl, rfl, full⟩⟩
      simp only [addEntry]
      exact .bind searched (.bind failed (.pure))
    · have grows := Grows.of_allocated addressable wellFormed shape allocated
      have placed := allocated.placed addressable
      have free : freeSlot (grown.data new 0) = some 0 := by
        rw [allocated.cleared 0 addressable.cluster_pos, freeSlot_zero]
      have stored := addToSectors_stores geometry placed entry addressable.cluster_pos free
        (sbi.sectorsPerCluster - 1)
      rw [Nat.sub_add_cancel addressable.cluster_pos] at stored
      have finishes := addEntry_of_next searched returned ((addSearch geometry entry grown).stop placed stored)
      refine ⟨0, _, _, search.reach wellFormed shape passed finishes, .inr ⟨rfl, ⟨grown, chains dir, new, [], 0,
        0, grows, Function.update_self .., ?_, addressable.cluster_pos, nofun, free, rfl⟩⟩⟩
      intro other listed position within
      rw [grows.kept other (wellFormed.fat_ne_zero listed)]
      exact occupied other listed position within
  · obtain ⟨slot, free⟩ := Option.ne_none_iff_exists'.mp some
    have placed := wellFormed.placed dir found (by simp [shape])
    have stored := addToSectors_stores geometry placed entry inside free
    exact ⟨0, _, chains, search.first wellFormed shape occupied inside full stored, .inr ⟨rfl, ⟨volume, early,
      found, late, index, slot, .refl wellFormed, shape, occupied, inside, full, free, rfl⟩⟩⟩

theorem updateClusters_of_next (placed : Placed sbi cluster) (searched : Yields (Represents sbi)
      (updateSectors inode.ino inode.size (clusterToSector sbi cluster) sbi.sectorsPerCluster 0) volume
      none volume) (finishes : Finishes (Represents sbi)
      (fun fuel => updateClusters sbi inode fuel (volume.fat cluster)) volume status after) :
    Finishes (Represents sbi) (fun fuel => updateClusters sbi inode fuel cluster) volume status after := by
  refine .succ ?_
  simp only [updateClusters, if_neg (not_le.mpr placed.lt_end)]
  exact .bind searched (.bind (nextCluster_yields geometry placed.toIndexed volume) finishes)

theorem updateSearch (inode : Inode) (volume : Volume) :
    Search sbi volume (scanSlots · inode.ino slots = .absent)
      (fun cluster => updateSectors inode.ino inode.size (clusterToSector sbi cluster))
      (updateClusters sbi inode) where
  ended _ _ := .pure
  pass placed inside absent searched := by
    refine .bind (bread_yields placed inside) ?_
    simp only [absent]
    exact searched
  stop placed updated := by
    refine .succ ?_
    simp only [updateClusters, if_neg (not_le.mpr placed.lt_end)]
    exact .bind updated (.pure)
  next placed _ searched finishes := updateClusters_of_next geometry placed searched finishes

theorem updateSectors_found (placed : Placed sbi cluster) (ino size : Nat) (inside : index < sbi.sectorsPerCluster)
    (found : scanSlots (volume.data cluster index) ino slots = .found slot) (steps : Nat) :
    Yields (Represents sbi) (updateSectors ino size (clusterToSector sbi cluster) (steps + 1) index) volume
      (some 0) (volume.setData cluster index (setEntrySize (volume.data cluster index) slot size)) := by
  refine .bind (bread_yields placed inside) ?_
  simp only [found]
  exact .bind (sync_yields geometry placed inside volume) (.pure)

theorem updateClusters_finishes (wellFormed : Chains sbi volume.fat chains) (inode : Inode) (used : chains dir ≠ []) :
    ∃ status after,
      Finishes (Represents sbi) (fun fuel => updateClusters sbi inode fuel dir) volume status after ∧
      after.fat = volume.fat ∧ after.top = volume.top ∧
      ∀ other, other ∉ chains dir → after.data other = volume.data other := by
  have search := updateSearch geometry inode volume
  rcases all_quiet_or_first sbi volume (chains dir) with
    absent | ⟨early, found, late, index, shape, quiet, inside, absent, present⟩
  · obtain ⟨before, last, shape⟩ := (eq_nil_or_concat' (chains dir)).resolve_left used
    have placed := wellFormed.placed dir last (by simp [shape])
    have searched := search.none placed (absent last (by simp [shape]))
    refine ⟨-1, volume, search.reach wellFormed shape (fun cluster member => ?_)
      (updateClusters_of_next geometry placed searched (.succ ?_)), rfl, rfl, fun _ _ => rfl⟩
    · exact absent cluster (by simp [shape, member])
    · simp only [updateClusters, if_pos (wellFormed.fat_last shape)]
      exact .pure
  · have placed := wellFormed.placed dir found (by simp [shape])
    cases scanned : scanSlots (volume.data found index) inode.ino slots with
    | absent => exact absurd scanned present
    | stop =>
      refine ⟨-1, volume, search.first wellFormed shape quiet inside absent fun steps => ?_, rfl, rfl,
        fun _ _ => rfl⟩
      refine .bind (bread_yields placed inside) ?_
      simp only [scanned]
      exact .pure
    | found slot =>
      have updated := updateSectors_found geometry placed inode.ino inode.size inside scanned
      refine ⟨0, _, search.first wellFormed shape quiet inside absent updated, rfl, rfl,
        fun other outside => ?_⟩
      exact Volume.setData_of_ne fun same => outside (by simp [shape, same])

omit geometry in
/-- The first entry of a directory that names the cluster `ino`, with no end
mark in front of it. -/
structure Located (sbi : SbInfo) (volume : Volume) (dirs : List Nat) (ino found index slot : Nat) :
    Prop where
  place : ∃ early late, dirs = early ++ found :: late ∧
    ∀ cluster ∈ early, ∀ index, index < sbi.sectorsPerCluster →
      scanSlots (volume.data cluster index) ino slots = .absent
  inside : index < sbi.sectorsPerCluster
  absent : ∀ other, other < index → scanSlots (volume.data found other) ino slots = .absent
  scanned : scanSlots (volume.data found index) ino slots = .found slot

theorem updateClusters_located (wellFormed : Chains sbi volume.fat chains)
    (located : Located sbi volume (chains dir) inode.ino found index slot) :
    Finishes (Represents sbi) (fun fuel => updateClusters sbi inode fuel dir) volume 0
      (volume.setData found index (setEntrySize (volume.data found index) slot inode.size)) := by
  obtain ⟨early, late, shape, absent⟩ := located.place
  have placed := wellFormed.placed dir found (by simp [shape])
  exact (updateSearch geometry inode volume).first wellFormed shape absent located.inside located.absent
    (updateSectors_found geometry placed inode.ino inode.size located.inside located.scanned)

end Rucix.Fs.Fat32
