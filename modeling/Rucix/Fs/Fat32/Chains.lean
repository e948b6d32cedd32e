import Rucix.Data.Links
import Rucix.Fs.Fat32.Volume

namespace Rucix.Fs.Fat32

open Rucix.Data Function

/-! Cluster chains: lists through the FAT, closed by an entry of `endOfChain` or more. -/

def nextOf (fat : Nat → Nat) (cluster : Nat) : Option Nat :=
  if endOfChain ≤ fat cluster then none else some (fat cluster)

theorem nextOf_update (value : Nat) : nextOf (update fat cluster value) =
      update (nextOf fat) cluster (if endOfChain ≤ value then none else some value) := by
  funext other
  by_cases same : other = cluster
  · subst same
    simp [nextOf]
  · simp [nextOf, same]

/-- The chains by their first clusters.  They are separate, and the clusters of
no chain are free. -/
structure Chains (sbi : SbInfo) (fat : Nat → Nat) (chains : Nat → List Nat) : Prop where
  lists : Lists (nextOf fat) (fun head => (chains head).head?) chains
  starts : ∀ head cluster, (chains head).head? = some cluster → cluster = head
  placed : ∀ head, ∀ cluster ∈ chains head, Placed sbi cluster
  free : ∀ cluster, 2 ≤ cluster → cluster < fatEntries sbi → (∀ head, cluster ∉ chains head) →
    fat cluster = 0

/-- Every cluster that the allocator can choose is placed. -/
structure Addressable (sbi : SbInfo) : Prop extends Geometry sbi where
  allocatable : ∀ cluster, 2 ≤ cluster → cluster < maxCluster sbi → Placed sbi cluster

namespace Chains

variable (wellFormed : Chains sbi fat chains)
include wellFormed

theorem fat_last (shape : chains head = before ++ [cluster]) : endOfChain ≤ fat cluster := by
  have next := wellFormed.lists.next_eq shape
  rw [nextOf] at next
  split at next
  · assumption
  · cases next

theorem fat_link (shape : chains head = before ++ cluster :: next :: rest) : fat cluster = next := by
  have link := wellFormed.lists.next_eq shape
  rw [nextOf] at link
  split at link
  · cases link
  · exact Option.some.inj link

theorem fat_ne_zero (listed : cluster ∈ chains head) : fat cluster ≠ 0 := by
  obtain ⟨before, rest, shape⟩ := List.append_of_mem listed
  cases rest with
  | nil =>
    have last := wellFormed.fat_last shape
    unfold endOfChain at last
    omega
  | cons next rest =>
    have two := (wellFormed.placed head next (by simp [shape])).two_le
    rw [wellFormed.fat_link shape]
    omega

theorem unlisted (isFree : fat cluster = 0) (head : Nat) : cluster ∉ chains head :=
  fun listed => wellFormed.fat_ne_zero listed isFree

theorem shape (used : chains head ≠ []) : ∃ rest, chains head = head :: rest := by
  obtain ⟨first, rest, shape⟩ := List.exists_cons_of_ne_nil used
  have isHead := wellFormed.starts head first (by simp [shape])
  exact ⟨rest, by rw [shape, isHead]⟩

theorem unused (isFree : fat cluster = 0) : chains cluster = [] := by
  by_contra used
  obtain ⟨rest, shape⟩ := wellFormed.shape used
  exact wellFormed.unlisted isFree cluster (by simp [shape])

theorem start (placed : Placed sbi cluster) (isFree : fat cluster = 0) :
    Chains sbi (update fat cluster 0x0FFFFFFF) (update chains cluster [cluster]) := by
  have heads : (fun head => (update chains cluster [cluster] head).head?) =
      update (fun head => (chains head).head?) cluster (some cluster) := by
    funext head
    by_cases same : head = cluster
    · subst same
      simp
    · simp [same]
  refine ⟨?_, fun head other first => ?_, fun head other listed => ?_, fun other two entry absent => ?_⟩
  · rw [heads, nextOf_update]
    exact wellFormed.lists.single (wellFormed.unlisted isFree)
  · by_cases same : head = cluster
    · subst same
      simpa using first.symm
    · rw [update_of_ne same] at first
      exact wellFormed.starts head other first
  · by_cases same : head = cluster
    · subst same
      rw [update_self, List.mem_singleton] at listed
      rwa [listed]
    · rw [update_of_ne same] at listed
      exact wellFormed.placed head other listed
  · have different : other ≠ cluster := by
      rintro rfl
      exact absent other (by simp)
    rw [update_of_ne different]
    refine wellFormed.free other two entry fun head listed => ?_
    by_cases same : head = cluster
    · subst same
      simp [wellFormed.unused isFree] at listed
    · exact absent head (by rwa [update_of_ne same])

theorem extend (placed : Placed sbi cluster) (isFree : fat cluster = 0) (shape : chains head = before ++ [prev]) :
    Chains sbi (update (update fat cluster 0x0FFFFFFF) prev cluster)
      (update chains head (chains head ++ [cluster])) := by
  have heads : (fun place => (update chains head (chains head ++ [cluster]) place).head?) =
      fun place => (chains place).head? := by
    funext place
    by_cases same : place = head
    · subst same
      rw [update_self, shape]
      cases before <;> rfl
    · rw [update_of_ne same]
  have notEnd : ¬ endOfChain ≤ cluster := not_le.mpr placed.lt_end
  refine ⟨?_, fun place other first => ?_, fun place other listed => ?_, fun other two entry absent => ?_⟩
  · rw [heads, nextOf_update, nextOf_update, if_neg notEnd]
    exact wellFormed.lists.pushBack shape (wellFormed.unlisted isFree)
  · have first : (chains place).head? = some other := by
      rw [← first]
      exact (congrFun heads place).symm
    exact wellFormed.starts place other first
  · rcases mem_update_append.mp listed with old | ⟨-, rfl⟩
    · exact wellFormed.placed place other old
    · exact placed
  · have different : other ≠ cluster := by
      rintro rfl
      exact absent head (mem_update_append.mpr (.inr ⟨rfl, rfl⟩))
    have notPrev : other ≠ prev := by
      rintro rfl
      exact absent head (mem_update_append.mpr (.inl (by simp [shape])))
    rw [update_of_ne notPrev, update_of_ne different]
    exact wellFormed.free other two entry fun place listed =>
      absent place (mem_update_append.mpr (.inl listed))

end Chains

end Rucix.Fs.Fat32
