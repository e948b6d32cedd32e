import Rucix.Fs.Fat32.Allocation

namespace Rucix.Fs.Fat32

open Rucix.Data Function List

/-! Growing one chain of a volume. -/

variable {sbi : SbInfo} {volume after : Volume} {chains : Nat → List Nat} {head cluster prev : Nat}
  {before rest : List Nat}

/-- Only the chain of `head` grows, by clusters that were free, and only it and
the clusters `dirs` are written. -/
structure Effect (sbi : SbInfo) (head : Nat) (dirs : List Nat) (volume : Volume)
    (chains : Nat → List Nat) (after : Volume) (afterChains : Nat → List Nat) : Prop where
  wellFormed : Chains sbi after.fat afterChains
  top : after.top = volume.top
  grown : ∃ extra, afterChains = update chains head (chains head ++ extra) ∧
    ∀ cluster ∈ extra, volume.fat cluster = 0
  used : ∀ cluster, volume.fat cluster ≠ 0 → after.fat cluster ≠ 0
  room : (freeClusters sbi after.fat).card + (afterChains head).length =
    (freeClusters sbi volume.fat).card + (chains head).length
  others : ∀ cluster, volume.fat cluster ≠ 0 → cluster ∉ chains head → cluster ∉ dirs →
    after.data cluster = volume.data cluster

namespace Effect

theorem of_data (wellFormed : Chains sbi volume.fat chains) (fat : after.fat = volume.fat)
    (top : after.top = volume.top) (others : ∀ cluster, cluster ∉ chains head → cluster ∉ dirs →
      after.data cluster = volume.data cluster) : Effect sbi head dirs volume chains after chains where
  wellFormed := fat ▸ wellFormed
  top := top
  grown := ⟨[], by simp, by simp⟩
  used := by simp [fat]
  room := by rw [fat]
  others cluster _ := others cluster

theorem refl (wellFormed : Chains sbi volume.fat chains) : Effect sbi head dirs volume chains volume chains :=
  of_data wellFormed rfl rfl fun _ _ _ => rfl

theorem trans (first : Effect sbi head dirs volume chains middle middleChains)
    (second : Effect sbi head dirs middle middleChains after afterChains) :
    Effect sbi head dirs volume chains after afterChains := by
  obtain ⟨extra, rfl, fresh⟩ := first.grown
  obtain ⟨more, grown, fresh'⟩ := second.grown
  rw [update_self, update_idem] at grown
  refine ⟨second.wellFormed, second.top.trans first.top, ⟨extra ++ more, ?_, fun cluster listed => ?_⟩,
    fun cluster used => second.used cluster (first.used cluster used), second.room.trans first.room,
    fun cluster used outside apart => ?_⟩
  · rw [grown, append_assoc]
  · rcases mem_append.mp listed with early | late
    · exact fresh cluster early
    · by_contra used
      exact first.used cluster used (fresh' cluster late)
  · rw [second.others cluster (first.used cluster used) ?_ apart, first.others cluster used outside apart]
    rw [update_self, mem_append]
    rintro (early | late)
    · exact outside early
    · exact used (fresh cluster late)

theorem weaken (effect : Effect sbi head [] volume chains after afterChains) :
    Effect sbi head dirs volume chains after afterChains :=
  ⟨effect.wellFormed, effect.top, effect.grown, effect.used, effect.room,
    fun cluster used outside _ => effect.others cluster used outside (by simp)⟩

theorem chain_eq (effect : Effect sbi head dirs volume chains after afterChains) :
    ∃ extra, afterChains head = chains head ++ extra := by
  obtain ⟨extra, rfl, -⟩ := effect.grown
  exact ⟨extra, update_self ..⟩

theorem other_chain (effect : Effect sbi head dirs volume chains after afterChains) (different : other ≠ head) :
    afterChains other = chains other := by
  obtain ⟨extra, rfl, -⟩ := effect.grown
  exact update_of_ne different ..

end Effect

section

variable (allocated : Allocated sbi volume prev cluster after) (inUse : prev = 0 ∨ volume.fat prev ≠ 0)
include allocated inUse

theorem Allocated.fat_eq_zero : after.fat other = 0 ↔ other ≠ cluster ∧ volume.fat other = 0 := by
  have two := (mem_freeClusters.mp allocated.chosen).2.1
  rw [allocated.fat]
  split
  · by_cases isCluster : other = cluster <;> simp [isCluster]
  · rename_i some
    have used := inUse.resolve_left some
    by_cases isPrev : other = prev
    · subst isPrev
      simp only [update_self]
      omega
    · rw [update_of_ne isPrev]
      by_cases isCluster : other = cluster <;> simp [isCluster]

theorem Allocated.freeClusters_eq :
    freeClusters sbi after.fat = (freeClusters sbi volume.fat).erase cluster := by
  ext other
  rw [Finset.mem_erase, mem_freeClusters, mem_freeClusters, allocated.fat_eq_zero inUse]
  tauto

end

def clusterBytes (volume : Volume) (cluster : Nat) : Block := fun position =>
  volume.data cluster (position / 512) (position % 512)

def fileBytes (sbi : SbInfo) (volume : Volume) (chain : List Nat) : Block := fun position =>
  match chain[position / (sbi.sectorsPerCluster * 512)]? with
  | some cluster => clusterBytes volume cluster (position % (sbi.sectorsPerCluster * 512))
  | none => 0

theorem fileBytes_congr (same : ∀ cluster ∈ chain, after.data cluster = volume.data cluster) :
    fileBytes sbi after chain = fileBytes sbi volume chain := by
  funext position
  simp only [fileBytes]
  cases found : chain[position / (sbi.sectorsPerCluster * 512)]? with
  | none => rfl
  | some cluster => simp only [clusterBytes, same cluster (mem_of_getElem? found)]

theorem fileBytes_append (geometry : Geometry sbi)
    (same : ∀ cluster ∈ chain, after.data cluster = volume.data cluster)
    (cleared : ∀ index, index < sbi.sectorsPerCluster → after.data cluster index = Block.zero) :
    fileBytes sbi after (chain ++ [cluster]) = fileBytes sbi volume chain := by
  rw [← fileBytes_congr same]
  funext position
  simp only [fileBytes]
  have positive : 0 < sbi.sectorsPerCluster * 512 := by
    have := geometry.cluster_pos
    omega
  rcases Nat.lt_trichotomy (position / (sbi.sectorsPerCluster * 512)) chain.length with
    small | same | large
  · rw [getElem?_append_left small]
  · have inside : position % (sbi.sectorsPerCluster * 512) / 512 < sbi.sectorsPerCluster := by
      have := Nat.mod_lt position positive
      omega
    rw [same, getElem?_concat_length, getElem?_eq_none (le_refl _)]
    simp only [clusterBytes, cleared _ inside, Block.zero]
  · rw [getElem?_eq_none (by rw [length_append, length_singleton]; omega),
      getElem?_eq_none (by omega)]

theorem fileBytes_put (geometry : Geometry sbi) (shape : chain = before ++ cluster :: rest) (distinct : chain.Nodup)
    (fits : position + bytes.length ≤ sbi.sectorsPerCluster * 512)
    (same : ∀ other ∈ chain, other ≠ cluster → after.data other = volume.data other)
    (written : clusterBytes after cluster = (clusterBytes volume cluster).put position bytes) :
    fileBytes sbi after chain =
      (fileBytes sbi volume chain).put (before.length * (sbi.sectorsPerCluster * 512) + position) bytes := by
  have positive := geometry.cluster_pos
  generalize size : sbi.sectorsPerCluster * 512 = clusterSize at fits
  have here : chain[before.length]? = some cluster := by
    rw [shape, getElem?_append_right (le_refl _), Nat.sub_self]
    rfl
  funext target
  have split := Nat.div_add_mod' target clusterSize
  by_cases inCluster : target / clusterSize = before.length
  · have offset : target - (before.length * clusterSize + position) =
        target % clusterSize - position := by
      rw [inCluster] at split
      omega
    have reached : before.length * clusterSize + position ≤ target ↔ position ≤ target % clusterSize := by
      rw [inCluster] at split
      omega
    simp only [fileBytes, Block.put, size, inCluster, here, written, offset, reached]
  · have outside : target < before.length * clusterSize + position ∨
        before.length * clusterSize + position + bytes.length ≤ target := by
      have remainder := Nat.mod_lt target (show 0 < clusterSize by omega)
      rcases Nat.lt_or_gt_of_ne inCluster with early | late
      · have scaled := Nat.mul_le_mul_right clusterSize (Nat.succ_le_of_lt early)
        rw [Nat.succ_mul] at scaled
        omega
      · have scaled := Nat.mul_le_mul_right clusterSize (Nat.succ_le_of_lt late)
        rw [Nat.succ_mul] at scaled
        omega
    rw [Block.put_outside outside]
    simp only [fileBytes, size]
    cases found : chain[target / clusterSize]? with
    | none => rfl
    | some other =>
      have different : other ≠ cluster := by
        rintro rfl
        obtain ⟨inside, atTarget⟩ := List.getElem?_eq_some_iff.mp found
        obtain ⟨inside', atBefore⟩ := List.getElem?_eq_some_iff.mp here
        exact inCluster (distinct.getElem_inj_iff.mp (atTarget.trans atBefore.symm))
      simp only [clusterBytes, same other (mem_of_getElem? found) different]

theorem length_snoc_mul : (before ++ [cluster]).length * size = before.length * size + size := by
  rw [length_append, length_singleton, Nat.succ_mul]

section

variable (inside : offset < 512) (isFirst : first = min (512 - offset) left)
  (isLater : later = min (left - first) (512 * steps))
include inside isFirst isLater

/-- A transfer from `offset` of one sector goes on with the other `steps` sectors of
the cluster. -/
theorem transferred_eq : first + later = min left (512 * (steps + 1) - offset) := by
  omega

theorem transferred_full (more : later ≠ 0) : 512 * (index + 1) + 0 = 512 * index + offset + first := by
  have remaining : first < left := by omega
  have whole : first = 512 - offset := by omega
  clear isFirst isLater
  omega

end

/-- A skipped sector changes neither the number of bytes nor their place. -/
theorem transferred_skip {count : Nat} (skip : 512 ≤ offset)
    (isCount : count = min left (512 * steps - (offset - 512))) :
    count = min left (512 * (steps + 1) - offset) ∧
      512 * (index + 1) + (offset - 512) = 512 * index + offset := by
  have room : 512 * steps - (offset - 512) = 512 * (steps + 1) - offset := by omega
  exact ⟨room ▸ isCount, by omega⟩

/-- Growth of a chain that leaves all contents as they were. -/
structure Grows (sbi : SbInfo) (head : Nat) (volume : Volume) (chains : Nat → List Nat)
    (after : Volume) (afterChains : Nat → List Nat) : Prop
    extends Effect sbi head [] volume chains after afterChains where
  kept : ∀ cluster, volume.fat cluster ≠ 0 → after.data cluster = volume.data cluster
  cleared : ∀ cluster ∈ afterChains head, cluster ∉ chains head → ∀ index, index < sbi.sectorsPerCluster →
    after.data cluster index = Block.zero
  bytes : fileBytes sbi after (afterChains head) = fileBytes sbi volume (chains head)

namespace Grows

theorem refl (wellFormed : Chains sbi volume.fat chains) : Grows sbi head volume chains volume chains :=
  ⟨.refl wellFormed, fun _ _ => rfl, fun _ listed outside => absurd listed outside, rfl⟩

theorem trans (first : Grows sbi head volume chains middle middleChains)
    (second : Grows sbi head middle middleChains after afterChains) :
    Grows sbi head volume chains after afterChains := by
  refine ⟨first.toEffect.trans second.toEffect,
    fun cluster used => (second.kept cluster (first.used cluster used)).trans (first.kept cluster used),
    fun cluster listed outside index inside => ?_, second.bytes.trans first.bytes⟩
  by_cases between : cluster ∈ middleChains head
  · rw [second.kept cluster (first.wellFormed.fat_ne_zero between)]
    exact first.cleared cluster between outside index inside
  · exact second.cleared cluster listed between index inside

end Grows

section

variable (addressable : Addressable sbi) (wellFormed : Chains sbi volume.fat chains)
  (shape : chains head = before ++ [prev]) (allocated : Allocated sbi volume prev cluster after)
include addressable wellFormed shape allocated

theorem Effect.of_allocated :
    Effect sbi head dirs volume chains after (update chains head (chains head ++ [cluster])) := by
  have listed : prev ∈ chains head := by simp [shape]
  have inUse : prev = 0 ∨ volume.fat prev ≠ 0 := .inr (wellFormed.fat_ne_zero listed)
  refine ⟨allocated.extend addressable wellFormed shape, allocated.top,
    ⟨[cluster], rfl, fun other isNew => ?_⟩,
    fun other used zero => used ((allocated.fat_eq_zero inUse).mp zero).2, ?_, fun other used _ _ => ?_⟩
  · rw [mem_singleton.mp isNew]
    exact allocated.free
  · have card := Finset.card_erase_add_one allocated.chosen
    rw [allocated.freeClusters_eq inUse, update_self, length_append,
      length_singleton]
    omega
  · refine allocated.others other fun same => ?_
    exact used (same ▸ allocated.free)

theorem Grows.of_allocated :
    Grows sbi head volume chains after (update chains head (chains head ++ [cluster])) := by
  have kept : ∀ other, volume.fat other ≠ 0 → after.data other = volume.data other := fun other used =>
    allocated.others other fun same => used (same ▸ allocated.free)
  refine ⟨.of_allocated addressable wellFormed shape allocated, kept, fun other listed outside => ?_, ?_⟩
  · rw [update_self, mem_append, mem_singleton] at listed
    rw [listed.resolve_left outside]
    exact allocated.cleared
  · rw [update_self]
    exact fileBytes_append addressable.toGeometry
      (fun other listed => kept other (wellFormed.fat_ne_zero listed)) allocated.cleared

end

section

variable (addressable : Addressable sbi) (wellFormed : Chains sbi volume.fat chains)
  (shape : chains head = before ++ cluster :: rest)
include addressable wellFormed shape

/-- At the end of the chain a cleared cluster is appended, unless none is free. -/
theorem nextOrAlloc_yields : (∃ next behind, rest = next :: behind ∧
        Yields (Represents sbi) (nextOrAlloc sbi cluster) volume (some next) volume) ∨
      (rest = [] ∧ freeClusters sbi volume.fat = ∅ ∧
        Yields (Represents sbi) (nextOrAlloc sbi cluster) volume none volume) ∨
      (rest = [] ∧ ∃ new after,
        Yields (Represents sbi) (nextOrAlloc sbi cluster) volume (some new) after ∧
        Allocated sbi volume cluster new after) := by
  have placed := wellFormed.placed head cluster (by simp [shape])
  have read := nextCluster_yields addressable.toGeometry placed.toIndexed volume
  cases rest with
  | cons next behind =>
    refine .inl ⟨next, behind, rfl, .bind read ?_⟩
    have notEnd := (wellFormed.placed head next (by simp [shape])).lt_end
    rw [wellFormed.fat_link shape, if_neg (not_le.mpr notEnd)]
    exact .pure
  | nil =>
    have last := wellFormed.fat_last shape
    rcases allocCluster_yields addressable (.inr placed) with
      ⟨failed, full⟩ | ⟨new, after, nonzero, returned, allocated⟩
    · refine .inr (.inl ⟨rfl, full, .bind read ?_⟩)
      rw [if_pos last]
      exact .bind failed (.pure)
    · refine .inr (.inr ⟨rfl, new, after, .bind read ?_, allocated⟩)
      rw [if_pos last]
      refine .bind returned ?_
      rw [if_neg nonzero]
      exact .pure

/-- The loops of `fat32_write` go on with the next cluster, unless the volume is
full. -/
theorem nextOrAlloc_grows : (rest = [] ∧ freeClusters sbi volume.fat = ∅ ∧
        Yields (Represents sbi) (nextOrAlloc sbi cluster) volume none volume) ∨
      ∃ next behind after afterChains,
        Yields (Represents sbi) (nextOrAlloc sbi cluster) volume (some next) after ∧
        Grows sbi head volume chains after afterChains ∧
        afterChains head = (before ++ [cluster]) ++ next :: behind := by
  rcases nextOrAlloc_yields addressable wellFormed shape with
    ⟨next, behind, rfl, found⟩ | full | ⟨rfl, new, after, returned, allocated⟩
  · exact .inr ⟨next, behind, volume, chains, found, .refl wellFormed,
      shape.trans (append_cons before cluster (next :: behind))⟩
  · exact .inl full
  · refine .inr ⟨new, [], after, _, returned, .of_allocated addressable wellFormed shape allocated, ?_⟩
    rw [update_self, shape]

theorem seekCluster_finishes : ∃ result after afterChains,
      Finishes (Represents sbi) (fun fuel => seekCluster sbi fuel cluster targetPos) volume result after ∧
      Grows sbi head volume chains after afterChains ∧
      ((result = none ∧ freeClusters sbi after.fat = ∅ ∧
          (afterChains head).length * (sbi.sectorsPerCluster * 512) ≤
            before.length * (sbi.sectorsPerCluster * 512) + targetPos) ∨
        ∃ found position early late, result = some (found, position) ∧
          position < sbi.sectorsPerCluster * 512 ∧ afterChains head = early ++ found :: late ∧
          early.length * (sbi.sectorsPerCluster * 512) + position =
            before.length * (sbi.sectorsPerCluster * 512) + targetPos) := by
  have positive := addressable.cluster_pos
  induction targetPos using Nat.strong_induction_on generalizing volume chains cluster before rest with
  | _ targetPos ih =>
    by_cases inside : targetPos < sbi.sectorsPerCluster * 512
    · refine ⟨some (cluster, targetPos), volume, chains, .succ ?_, .refl wellFormed,
        .inr ⟨cluster, targetPos, before, rest, rfl, inside, shape, rfl⟩⟩
      simp only [seekCluster, if_pos inside]
      exact .pure
    · rcases nextOrAlloc_grows addressable wellFormed shape with
        ⟨rfl, full, failed⟩ | ⟨next, behind, middle, middleChains, found, step, shape'⟩
      · refine ⟨none, volume, chains, .succ ?_, .refl wellFormed, .inl ⟨rfl, full, ?_⟩⟩
        · simp only [seekCluster, if_neg inside]
          exact .bind failed (.pure)
        · rw [shape, length_snoc_mul]
          omega
      · have smaller : targetPos - sbi.sectorsPerCluster * 512 < targetPos := by omega
        have position : (before ++ [cluster]).length * (sbi.sectorsPerCluster * 512) +
            (targetPos - sbi.sectorsPerCluster * 512) =
            before.length * (sbi.sectorsPerCluster * 512) + targetPos := by
          rw [length_snoc_mul]
          omega
        obtain ⟨result, after, afterChains, finishes, grows, outcome⟩ :=
          ih _ smaller step.wellFormed shape'
        rw [position] at outcome
        refine ⟨result, after, afterChains, .succ ?_, step.trans grows, outcome⟩
        simp only [seekCluster, if_neg inside]
        exact .bind found finishes

end

end Rucix.Fs.Fat32
