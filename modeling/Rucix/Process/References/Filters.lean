import Rucix.Data.Links
import Rucix.Process.References.Model

namespace Rucix.Process

open Rucix.Data Rucix.Security Function List

/-! The filters that processes share: the count of a filter is the number of processes
whose chain contains it.
-/

variable {filters : FilterHeap} {chains : Nat → List Nat} {chain : List Nat} {head : Option Nat}
  {pid child addr : Nat} {fuel : Nat}

/-- The filters at the addresses of `chain`, all allocated, are linked by `prev`. -/
structure FilterChain (filters : FilterHeap) (head : Option Nat) (chain : List Nat) : Prop where
  linked : Linked (fun addr => (filters addr).bind (·.prev)) head chain none
  allocated : ∀ addr ∈ chain, ∃ filter, filters addr = some filter

theorem FilterChain.of_none : FilterChain filters none [] :=
  ⟨rfl, fun _ member => nomatch member⟩

theorem FilterChain.unique (first : FilterChain filters head chain) (second : FilterChain filters head other) :
    chain = other :=
  first.linked.unique second.linked

section

variable (chained : FilterChain filters head chain)
include chained

theorem FilterChain.congr {others : FilterHeap} (same : ∀ addr ∈ chain, ∀ filter, filters addr = some filter →
      ∃ kept, others addr = some kept ∧ kept.prev = filter.prev) : FilterChain others head chain where
  linked := by
    refine chained.linked.congr fun addr member => ?_
    obtain ⟨filter, stored⟩ := chained.allocated addr member
    obtain ⟨kept, found, link⟩ := same addr member filter stored
    simp only [found, stored, Option.bind_some, link]
  allocated addr member := by
    obtain ⟨filter, stored⟩ := chained.allocated addr member
    obtain ⟨kept, found, -⟩ := same addr member filter stored
    exact ⟨kept, found⟩

theorem FilterChain.insert {filter : SeccompFilter} (fresh : filters addr = none) :
    FilterChain (update filters addr (some filter)) head chain := by
  refine chained.congr fun place listed found stored => ⟨found, ?_, rfl⟩
  have different : place ≠ addr := by
    intro same
    cases (same ▸ stored).symm.trans fresh
  rw [update_of_ne different, stored]

theorem FilterChain.update (outside : addr ∉ chain)
    (filter : Option SeccompFilter) : FilterChain (update filters addr filter) head chain := by
  refine chained.congr fun other member found known => ⟨found, ?_, rfl⟩
  rw [update_of_ne (ne_of_mem_of_not_mem member outside), known]

end

theorem FilterChain.cons {filter : SeccompFilter} (chained : FilterChain filters filter.prev chain)
    (stored : filters addr = some filter) : FilterChain filters (some addr) (addr :: chain) := by
  refine ⟨⟨rfl, ?_⟩, fun place listed => ?_⟩
  · simpa only [stored, Option.bind_some] using chained.linked
  · rcases mem_cons.mp listed with rfl | further
    · exact ⟨filter, stored⟩
    · exact chained.allocated place further

def holders (live : Finset Nat) (chains : Nat → List Nat) (addr : Nat) : Nat :=
  (live.filter fun pid => addr ∈ chains pid).card

section Holders

variable {live : Finset Nat}

theorem holders_pos (member : pid ∈ live) (listed : addr ∈ chains pid) : 0 < holders live chains addr :=
  Finset.card_pos.mpr ⟨pid, Finset.mem_filter.mpr ⟨member, listed⟩⟩

theorem holders_attached (member : pid ∈ live) (unlisted : ∀ other ∈ live, addr ∉ chains other) :
    holders live (update chains pid (addr :: chains pid)) addr = 1 := by
  have only : (live.filter fun other => addr ∈ update chains pid (addr :: chains pid) other) =
      {pid} := by
    ext other
    simp only [Finset.mem_filter, Finset.mem_singleton]
    constructor
    · intro ⟨present, listed⟩
      by_contra different
      rw [update_of_ne different] at listed
      exact unlisted other present listed
    · intro same
      subst same
      exact ⟨member, by simp⟩
  rw [holders, only, Finset.card_singleton]

theorem holders_attached_ne (different : place ≠ addr) :
    holders live (update chains pid (addr :: chains pid)) place = holders live chains place := by
  refine congrArg Finset.card (Finset.filter_congr fun other _ => ?_)
  by_cases caller : other = pid
  · subst caller
    simp [different]
  · rw [update_of_ne caller]

end Holders

theorem FilterChain.uncons (chained : FilterChain filters head (addr :: chain)) :
    ∃ filter, head = some addr ∧ filters addr = some filter ∧ addr ∉ chain ∧
      FilterChain filters filter.prev chain := by
  obtain ⟨fresh, -⟩ := nodup_cons.mp chained.linked.nodup
  obtain ⟨filter, stored⟩ := chained.allocated addr mem_cons_self
  have later : Linked (fun addr => (filters addr).bind (·.prev)) filter.prev chain none := by
    simpa only [stored, Option.bind_some] using chained.linked.2
  exact ⟨filter, chained.linked.1, stored, fresh, later,
    fun other member => chained.allocated other (mem_cons_of_mem _ member)⟩

/-- Change every filter of a chain, or free it. -/
def changeChain (change : SeccompFilter → Option SeccompFilter) :
    (fuel : Nat) → FilterHeap → Option Nat → Option FilterHeap
  | _, filters, none => some filters
  | 0, _, some _ => none
  | fuel + 1, filters, some addr =>
    match filters addr with
    | none => none
    | some filter => changeChain change fuel (update filters addr (change filter)) filter.prev

def changed (change : SeccompFilter → Option SeccompFilter) (filters : FilterHeap) (chain : List Nat) :
    FilterHeap := fun addr =>
  if addr ∈ chain then (filters addr).bind change else filters addr

variable {change : SeccompFilter → Option SeccompFilter} {others : FilterHeap}

theorem changed_nil : changed change filters [] = filters := by
  funext addr
  simp [changed]

theorem changed_cons {filter : SeccompFilter} (stored : filters addr = some filter) (fresh : addr ∉ chain) :
    changed change (update filters addr (change filter)) chain =
      changed change filters (addr :: chain) := by
  funext other
  by_cases here : other = addr
  · subst here
    simp [changed, fresh, stored]
  · simp [changed, here]

/-- The walk returns exactly with fuel for the whole chain. -/
theorem changeChain_eq (chained : FilterChain filters head chain) :
    changeChain change fuel filters head =
      if chain.length ≤ fuel then some (changed change filters chain) else none := by
  induction chain generalizing filters head fuel with
  | nil =>
    cases (show head = none from chained.linked)
    cases fuel <;> simp [changeChain, changed_nil]
  | cons addr rest ih =>
    obtain ⟨filter, link, stored, fresh, tail⟩ := chained.uncons
    rw [link]
    cases fuel with
    | zero => rfl
    | succ fuel =>
      simp only [changeChain, stored, length_cons, Nat.succ_le_succ_iff]
      rw [ih (tail.update fresh _), changed_cons stored fresh]

theorem releaseChain_eq_changeChain (fuel : Nat) (filters : FilterHeap) (head : Option Nat) :
    releaseChain fuel filters head = changeChain dropFilter fuel filters head := by
  induction fuel generalizing filters head with
  | zero => cases head <;> rfl
  | succ fuel ih =>
    cases head with
    | none => rfl
    | some addr =>
      cases stored : filters addr with
      | none => simp only [releaseChain, changeChain, stored]
      | some filter =>
        simp only [releaseChain, changeChain, stored]
        exact ih _ _

theorem releaseChain_eq (chained : FilterChain filters head chain) :
    releaseChain fuel filters head = if chain.length ≤ fuel then some (changed dropFilter filters chain) else none := by
  rw [releaseChain_eq_changeChain]
  exact changeChain_eq chained

/-- Every chain consists of allocated filters, and every count is right. -/
structure FilterShares (live : Finset Nat) (heads : Nat → Option Nat) (filters : FilterHeap)
    (chains : Nat → List Nat) : Prop where
  chained : ∀ pid ∈ live, FilterChain filters (heads pid) (chains pid)
  counted : ∀ addr filter, filters addr = some filter → filter.refCount = holders live chains addr

namespace FilterShares

variable {live : Finset Nat} {heads newHeads : Nat → Option Nat}

variable (shares : FilterShares live heads filters chains)
include shares

theorem congr (same : ∀ pid ∈ live, newHeads pid = heads pid) : FilterShares live newHeads filters chains where
  chained pid member := by
    rw [same pid member]
    exact shares.chained pid member
  counted := shares.counted

theorem unlisted (fresh : filters addr = none) : ∀ pid ∈ live, addr ∉ chains pid := by
  intro pid member listed
  obtain ⟨filter, stored⟩ := (shares.chained pid member).allocated addr listed
  cases stored.symm.trans fresh

theorem attach {filter : SeccompFilter} (member : pid ∈ live) (fresh : filters addr = none)
    (one : filter.refCount = 1) (link : filter.prev = heads pid) : FilterShares live (update heads pid (some addr))
      (update filters addr (some filter)) (update chains pid (addr :: chains pid)) where
  chained other present := by
    have kept : FilterChain (update filters addr (some filter)) (heads other) (chains other) :=
      (shares.chained other present).insert fresh
    by_cases here : other = pid
    · subst here
      rw [update_self, update_self]
      exact FilterChain.cons (link ▸ kept) (update_self ..)
    · rw [update_of_ne here, update_of_ne here]
      exact kept
  counted place found stored := by
    by_cases here : place = addr
    · subst here
      rw [update_self, Option.some.injEq] at stored
      rw [← stored, one]
      exact congrArg Nat.cast (holders_attached member (shares.unlisted fresh)).symm
    · rw [update_of_ne here] at stored
      rw [shares.counted place found stored]
      exact congrArg Nat.cast (holders_attached_ne here).symm

theorem leave (member : pid ∈ live) :
    FilterShares (live.erase pid) heads (changed dropFilter filters (chains pid)) chains := by
  have counts : ∀ place, holders (live.erase pid) chains place + (if place ∈ chains pid then 1 else 0) =
      holders live chains place := fun place => card_filter_erase member
  refine ⟨fun other present => ?_, fun place found stored => ?_⟩
  · obtain ⟨different, present⟩ := Finset.mem_erase.mp present
    refine (shares.chained other present).congr fun place listed filter stored => ?_
    have count := shares.counted place filter stored
    have remaining : 0 < holders (live.erase pid) chains place :=
      holders_pos (Finset.mem_erase.mpr ⟨different, present⟩) listed
    have total := counts place
    by_cases shared : place ∈ chains pid
    · rw [if_pos shared] at total
      have above : ¬filter.refCount - 1 ≤ 0 := by omega
      exact ⟨{ filter with refCount := filter.refCount - 1 },
        by simp [changed, shared, stored, dropFilter, above], rfl⟩
    · exact ⟨filter, by simp [changed, shared, stored], rfl⟩
  · have total := counts place
    simp only [changed] at stored
    by_cases listed : place ∈ chains pid
    · rw [if_pos listed] at stored total
      obtain ⟨filter, known, kept⟩ := Option.bind_eq_some_iff.mp stored
      have count := shares.counted place filter known
      rw [dropFilter] at kept
      split at kept
      · cases kept
      · cases kept
        dsimp only
        omega
    · rw [if_neg listed] at stored total
      have count := shares.counted place found stored
      omega

end FilterShares

end Rucix.Process
