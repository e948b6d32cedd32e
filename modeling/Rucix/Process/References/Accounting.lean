import Rucix.Process.References.Filters
import Rucix.Security.Seccomp.Confinement

namespace Rucix.Process

open Rucix.Data Rucix.Security Function ProcessTable

/-! The reference counts of filters and css sets.

A process that shares nothing may fork.  Any other fork makes a reference that is not
counted.
-/

variable {table after : ProcessTable} {filters : FilterHeap} {chains : Nat → List Nat} {pid child addr : Nat}
  {fuel : Nat}

/-- The count of `init_css_set` before any process refers to it. -/
abbrev initialRefCount : Int := 1

structure ProcessTable.Accounted (table : ProcessTable) (chains : Nat → List Nat) : Prop where
  chained : ∀ pid ∈ table.live, FilterChain table.filters (table.procs pid).seccompFilter (chains pid)
  filterCount : ∀ addr filter, table.filters addr = some filter →
    filter.refCount = holders table.live chains addr
  cssAllocated : ∀ pid ∈ table.live, ∀ addr, (table.procs pid).cgroups = some addr →
    ∃ set, table.cssSets addr = some set
  cssCount : ∀ addr set, table.cssSets addr = some set →
    set.refCount = initialRefCount + references table.live (fun pid => (table.procs pid).cgroups) addr

def ProcessTable.Counted (table : ProcessTable) : Prop :=
  ∃ chains, table.Accounted chains

theorem ProcessTable.heads_setProc (table : ProcessTable) :
    (fun other => ((table.setProc pid { table.procs pid with seccompFilter := filter }).procs
      other).seccompFilter) =
        update (fun other => (table.procs other).seccompFilter) pid filter := by
  funext other
  by_cases here : other = pid
  · subst here
    simp [setProc]
  · simp [setProc, here]

namespace ProcessTable.Accounted

variable (accounted : table.Accounted chains)
include accounted

theorem shares : FilterShares table.live (fun pid => (table.procs pid).seccompFilter) table.filters chains :=
  ⟨accounted.chained, accounted.filterCount⟩

theorem spawn (fresh : child ∉ table.live) : (table.spawn child { seccompFilter := none, cgroups := none }).Accounted
      (update chains child []) := by
  have others : ∀ {pid}, pid ∈ table.live → pid ≠ child := fun member same => fresh (same ▸ member)
  refine ⟨fun pid member => ?_, fun addr filter stored => ?_, fun pid member addr points => ?_,
    fun addr set stored => ?_⟩
  · rcases Finset.mem_insert.mp member with rfl | old
    · simpa [spawn, setProc] using FilterChain.of_none
    · simpa [ProcessTable.spawn, ProcessTable.setProc, others old] using accounted.chained pid old
  · rw [accounted.filterCount addr filter stored]
    have same : (table.live.filter fun pid => addr ∈ update chains child [] pid) =
        table.live.filter fun pid => addr ∈ chains pid :=
      Finset.filter_congr fun pid old => by rw [update_of_ne (others old)]
    have counted := card_filter_insert (p := fun pid => addr ∈ update chains child [] pid) fresh
    rw [same, if_neg (by simp)] at counted
    exact congrArg Nat.cast counted.symm
  · rcases Finset.mem_insert.mp member with rfl | old
    · simp [spawn, setProc] at points
    · exact accounted.cssAllocated pid old addr
        (by simpa [ProcessTable.spawn, ProcessTable.setProc, others old] using points)
  · rw [accounted.cssCount addr set stored]
    have same : references (insert child table.live)
        (fun pid => (update table.procs child ⟨none, none⟩ pid).cgroups) addr =
          references table.live (fun pid => (table.procs pid).cgroups) addr := by
      refine references_extend (Finset.subset_insert _ _) (fun pid old => by simp [others old])
        (fun pid member new => ?_)
      rcases Finset.mem_insert.mp member with rfl | old
      · simp
      · exact absurd old new
    exact congrArg (fun count : Nat => initialRefCount + (count : Int)) same.symm

section

variable (member : pid ∈ table.live)
include member

/-- The caller's chain gets longer by a filter that nobody else refers to. -/
theorem attach (fresh : table.filters addr = none) (counted : filter.refCount = 1)
    (link : filter.prev = (table.procs pid).seccompFilter) :
    ({ table with filters := update table.filters addr (some filter) }.setProc pid
      { table.procs pid with seccompFilter := some addr }).Accounted
        (update chains pid (addr :: chains pid)) := by
  have shares := accounted.shares.attach member fresh counted link
  rw [← table.heads_setProc] at shares
  have sameCgroups : ∀ other, (update table.procs pid
      { table.procs pid with seccompFilter := some addr } other).cgroups = (table.procs other).cgroups := by
    intro other
    by_cases here : other = pid
    · subst here
      simp
    · simp [here]
  refine ⟨shares.chained, shares.counted, fun other live place points => ?_, fun place set stored => ?_⟩
  · exact accounted.cssAllocated other live place ((sameCgroups other).symm.trans points)
  · rw [accounted.cssCount place set stored]
    simp only [setProc, sameCgroups]

theorem detach {set : CssSet} (points : (table.procs pid).cgroups = some addr)
    (stored : table.cssSets addr = some set) :
    ((table.setCssSet addr (some { refCount := set.refCount - 1 })).setProc pid
      { table.procs pid with cgroups := none }).Accounted chains := by
  have cleared : (fun other => (update table.procs pid
      { table.procs pid with cgroups := none } other).cgroups) =
        update (fun other => (table.procs other).cgroups) pid none := by
    funext other
    by_cases here : other = pid
    · subst here
      simp
    · simp [here]
  refine ⟨fun other live => ?_, accounted.filterCount, fun other live place pointed => ?_,
    fun place found kept => ?_⟩
  · have chained := accounted.chained other live
    by_cases here : other = pid
    · subst here
      simpa [setProc, setCssSet] using chained
    · simpa [setProc, setCssSet, here] using chained
  · by_cases here : place = addr
    · exact ⟨{ refCount := set.refCount - 1 }, by simp [setProc, setCssSet, here]⟩
    · have different : other ≠ pid := by
        intro same
        subst same
        simp [setProc] at pointed
      obtain ⟨found, known⟩ := accounted.cssAllocated other live place
        (by simpa [setProc, setCssSet, different] using pointed)
      exact ⟨found, by simpa [setProc, setCssSet, here] using known⟩
  · have dropped : references table.live
        (update (fun other => (table.procs other).cgroups) pid none) place +
          (if place = addr then 1 else 0) =
            references table.live (fun other => (table.procs other).cgroups) place :=
      references_clear member points
    simp only [setProc, setCssSet] at kept ⊢
    rw [cleared]
    by_cases here : place = addr
    · subst here
      have before := accounted.cssCount place set stored
      simp only [update_self, Option.some.injEq] at kept
      subst kept
      rw [if_pos rfl] at dropped
      dsimp only
      omega
    · rw [update_of_ne here] at kept
      have before := accounted.cssCount place found kept
      rw [if_neg here] at dropped
      omega

theorem cgroupExit :
    ∃ after, table.cgroupExit pid = some after ∧ after.Accounted chains ∧ after.live = table.live ∧
      (after.procs pid).cgroups = none := by
  cases points : (table.procs pid).cgroups with
  | none => exact ⟨table, by simp [ProcessTable.cgroupExit, points], accounted, rfl, points⟩
  | some addr =>
    obtain ⟨set, stored⟩ := accounted.cssAllocated pid member addr points
    have count : set.refCount =
        1 + references table.live (fun pid => (table.procs pid).cgroups) addr :=
      accounted.cssCount addr set stored
    have positive : 0 < references table.live (fun pid => (table.procs pid).cgroups) addr :=
      references_pos member points
    have remains : ¬(set.refCount - 1 ≤ 0 ∧ addr ≠ initCssSet) := by
      omega
    exact ⟨_, by simp only [ProcessTable.cgroupExit, points, stored, Option.map_some, if_neg remains],
      accounted.detach member points stored, rfl, by simp [ProcessTable.setProc]⟩

theorem leave (detached : (table.procs pid).cgroups = none) :
    ({ { table with filters := changed dropFilter table.filters (chains pid) }.setProc pid
        { table.procs pid with seccompFilter := none } with live := table.live.erase pid }).Accounted
      chains := by
  have shares : FilterShares (table.live.erase pid)
      (fun other => (update table.procs pid
        { table.procs pid with seccompFilter := none } other).seccompFilter)
      (changed dropFilter table.filters (chains pid)) chains :=
    (accounted.shares.leave member).congr fun other live => by simp [(Finset.mem_erase.mp live).1]
  refine ⟨shares.chained, shares.counted, fun other live place points => ?_, fun place set stored => ?_⟩
  · obtain ⟨different, live⟩ := Finset.mem_erase.mp live
    exact accounted.cssAllocated other live place
      (by simpa [setProc, different] using points)
  · rw [accounted.cssCount place set stored]
    have same : references (table.live.erase pid) (fun other => (update table.procs pid
        { table.procs pid with seccompFilter := none } other).cgroups) place =
          references table.live (fun other => (table.procs other).cgroups) place := by
      refine (references_extend (Finset.erase_subset _ _) (fun other live => ?_)
        (fun other live gone => ?_)).symm
      · simp [(Finset.mem_erase.mp live).1]
      · by_cases here : other = pid
        · rw [here, detached]
        · exact absurd (Finset.mem_erase.mpr ⟨here, live⟩) gone
    exact congrArg (fun count : Nat => initialRefCount + (count : Int)) same.symm

theorem processExit (exited : table.processExit fuel pid = some after) : after.Accounted chains := by
  obtain ⟨middle, left, remaining, live, detached⟩ := accounted.cgroupExit member
  have member : pid ∈ middle.live := live ▸ member
  simp only [ProcessTable.processExit, left, Option.bind_some, ProcessTable.seccompExit,
    Option.map_map, Option.map_eq_some_iff] at exited
  obtain ⟨others, returned, rfl⟩ := exited
  rw [releaseChain_eq (remaining.chained pid member), Option.ite_none_right_eq_some] at returned
  rw [← Option.some.inj returned.2]
  exact remaining.leave member detached

theorem processExit_returns : ∃ fuel after, table.processExit fuel pid = some after := by
  obtain ⟨middle, left, remaining, live, -⟩ := accounted.cgroupExit member
  have member : pid ∈ middle.live := live ▸ member
  refine ⟨(chains pid).length, ?_⟩
  simp only [ProcessTable.processExit, left, Option.bind_some, ProcessTable.seccompExit,
    releaseChain_eq (remaining.chained pid member), Nat.le_refl]
  exact ⟨_, rfl⟩

/-- A child that shares the caller's filters or css set is not counted. -/
theorem fork_unshared (fresh : child ∉ table.live) (forked : (table.spawn child (table.procs pid)).Accounted others) :
    (table.procs pid).seccompFilter = none ∧ (table.procs pid).cgroups = none := by
  have kept : ∀ other ∈ table.live, update table.procs child (table.procs pid) other =
      table.procs other :=
    fun other live => update_of_ne (ne_of_mem_of_not_mem live fresh) _ _
  have sameChain : ∀ other ∈ table.live, others other = chains other := by
    intro other live
    have later := forked.chained other (Finset.mem_insert_of_mem live)
    simp only [ProcessTable.spawn, ProcessTable.setProc, kept other live] at later
    exact later.unique (accounted.chained other live)
  have childChain : others child = chains pid := by
    have later := forked.chained child (Finset.mem_insert_self _ _)
    simp only [ProcessTable.spawn, ProcessTable.setProc, update_self] at later
    exact later.unique (accounted.chained pid member)
  constructor
  · by_contra shared
    obtain ⟨addr, head⟩ := Option.ne_none_iff_exists'.mp shared
    have linked := accounted.chained pid member
    have listed : addr ∈ chains pid := by
      have first := linked.linked.head_eq
      rw [head] at first
      exact List.mem_of_head? first.symm
    obtain ⟨filter, stored⟩ := linked.allocated addr listed
    have before := accounted.filterCount addr filter stored
    have counted := forked.filterCount addr filter stored
    have grown : holders (insert child table.live) others addr = holders table.live chains addr + 1 := by
      rw [holders, card_filter_insert fresh, if_pos (childChain ▸ listed)]
      congr 2
      exact Finset.filter_congr fun other live => by rw [sameChain other live]
    simp only [ProcessTable.spawn] at counted
    omega
  · by_contra shared
    obtain ⟨addr, points⟩ := Option.ne_none_iff_exists'.mp shared
    obtain ⟨set, stored⟩ := accounted.cssAllocated pid member addr points
    have before := accounted.cssCount addr set stored
    have counted := forked.cssCount addr set stored
    have grown : references (insert child table.live)
        (fun other => (update table.procs child (table.procs pid) other).cgroups) addr =
          references table.live (fun other => (table.procs other).cgroups) addr + 1 := by
      rw [references, card_filter_insert fresh, if_pos (by simp [points])]
      congr 2
      exact Finset.filter_congr fun other live => by rw [kept other live]
    simp only [ProcessTable.spawn, ProcessTable.setProc] at counted
    omega

theorem attachFilter (fresh : ∀ addr ∈ memory, table.filters addr = none)
    (attached : table.attachFilter pid prog memory buffer = some after) : after.Counted := by
  simp only [ProcessTable.attachFilter, Option.map_eq_some_iff] at attached
  obtain ⟨⟨result, state⟩, returned, rfl⟩ := attached
  cases memory with
  | none =>
    cases returned
    refine ⟨chains, ?_⟩
    have same : table.setProc pid (table.procs pid) = table := by
      simp [setProc]
    show (table.setProc pid (table.procs pid)).Accounted chains
    rw [same]
    exact accounted
  | some addr =>
    simp only [seccompAttachFilter] at returned
    split at returned
    · cases returned
    · cases returned
      exact ⟨_, accounted.attach member (fresh addr rfl) rfl rfl⟩

end

end ProcessTable.Accounted

/-- A process that forks has no filter and no css set. -/
def Unshared (table : ProcessTable) (call : Nat × ProcessOp) : Prop :=
  ∀ child, call.2 = .fork (some child) →
    (table.procs call.1).seccompFilter = none ∧ (table.procs call.1).cgroups = none

theorem ProcessStep.accounted_iff (accounted : table.Accounted chains) (step : ProcessStep table call after) :
    after.Counted ↔ Unshared table call := by
  obtain ⟨pid, op⟩ := call
  obtain ⟨member, fresh, fuel, performed⟩ := step
  have harmless : (∀ child, op ≠ .fork (some child)) → Unshared table (pid, op) :=
    fun other child same => absurd same (other child)
  cases op with
  | create child =>
    refine ⟨fun _ => harmless fun _ => nofun, fun _ => ?_⟩
    cases performed
    cases child with
    | none => exact ⟨chains, accounted⟩
    | some child => exact ⟨_, accounted.spawn (fresh child rfl)⟩
  | fork child =>
    cases performed
    cases child with
    | none => exact ⟨fun _ => harmless fun _ => nofun, fun _ => ⟨chains, accounted⟩⟩
    | some child =>
      refine ⟨fun ⟨others, forked⟩ _ _ => accounted.fork_unshared member (fresh child rfl) forked,
        fun unshared => ?_⟩
      obtain ⟨filter, cgroups⟩ := unshared child rfl
      have empty : table.procs pid = { seccompFilter := none, cgroups := none } := by
        cases caller : table.procs pid
        simp_all
      have spawned := accounted.spawn (fresh child rfl)
      exact ⟨_, by simpa only [processFork, empty] using spawned⟩
  | attach prog memory buffer =>
    exact ⟨fun _ => harmless fun _ => nofun, fun _ => accounted.attachFilter member fresh performed⟩
  | exit => exact ⟨fun _ => harmless fun _ => nofun, fun _ => ⟨chains, accounted.processExit member performed⟩⟩

def UnsharedStep (before : ProcessTable) (call : Nat × ProcessOp) (after : ProcessTable) : Prop :=
  ProcessStep before call after ∧ Unshared before call

theorem boot_accounted (booted : boot = some start) : start.Accounted fun _ => [] := by
  cases booted
  refine ⟨fun pid member => ?_, fun addr filter stored => (nomatch stored), fun pid member addr points => ?_,
    fun addr set stored => ?_⟩
  · cases Finset.mem_singleton.mp member
    exact FilterChain.of_none
  · cases Finset.mem_singleton.mp member
    cases points
    exact ⟨_, rfl⟩
  · by_cases here : addr = initCssSet
    · subst here
      cases stored
      decide
    · simp [setProc, setCssSet, here] at stored

/-- As long as only processes without a filter and a css set fork, all references are
counted and every exit returns; the first fork of another process ends that. -/
theorem references_counted_iff_unshared {start : ProcessTable} {calls : List (Nat × ProcessOp)}
    (booted : boot = some start) (run : Run UnsharedStep start calls table) :
    table.Counted ∧ (∀ pid ∈ table.live, ∃ fuel after, table.processExit fuel pid = some after) ∧
    ∀ call after, ProcessStep table call after → (after.Counted ↔ Unshared table call) := by
  have reached : table.Counted := by
    refine run.invariant ?_ ?_
    · exact ⟨_, boot_accounted booted⟩
    · intro before call after ⟨chains, accounted⟩ ⟨step, unshared⟩
      exact (step.accounted_iff accounted).mpr unshared
  obtain ⟨chains, accounted⟩ := reached
  exact ⟨⟨chains, accounted⟩, fun pid member => accounted.processExit_returns member,
    fun call after step => step.accounted_iff accounted⟩

def outcome (table : ProcessTable) (call : Nat × ProcessOp) : ProcessTable :=
  (table.perform 8 call.1 call.2).getD table

def kernelOnly : ProcessTable :=
  boot.getD ⟨∅, fun _ => ⟨none, none⟩, fun _ => none, fun _ => none⟩

def unsharedCalls : List (Nat × ProcessOp) :=
  [(0, .create (some 1)), (1, .fork (some 2)), (2, .attach allowAll (some 7) true), (2, .exit)]

theorem references_counted_iff_unshared_child :
    Run UnsharedStep kernelOnly unsharedCalls (unsharedCalls.foldl outcome kernelOnly) ∧
    (unsharedCalls.foldl outcome kernelOnly).Counted := by
  have run : Run UnsharedStep kernelOnly unsharedCalls (unsharedCalls.foldl outcome kernelOnly) := by
    apply Run.of_performs
    refine ⟨⟨⟨by decide, ?_, 8, rfl⟩, nofun⟩, ⟨⟨by decide, ?_, 8, rfl⟩, fun _ _ => ⟨rfl, rfl⟩⟩,
      ⟨⟨by decide, ?_, 8, rfl⟩, nofun⟩, ⟨⟨by decide, trivial, 8, rfl⟩, nofun⟩, trivial⟩
    · intro pid new
      cases new
      decide
    · intro pid new
      cases new
      decide
    · intro addr new
      rfl
  exact ⟨run, (references_counted_iff_unshared rfl run).1⟩

def sharedCalls : List (Nat × ProcessOp) :=
  [(0, .create (some 1)), (1, .attach allowAll (some 7) true), (1, .fork (some 2)), (2, .exit)]

/-- The child's exit frees the filter that the parent still has. -/
theorem forked_child_frees_parent_filter :
    boot = some kernelOnly ∧
    Run ProcessStep kernelOnly sharedCalls (sharedCalls.foldl outcome kernelOnly) ∧
    ¬(sharedCalls.foldl outcome kernelOnly).Counted := by
  refine ⟨rfl, ?_, ?_⟩
  · apply Run.of_performs
    refine ⟨⟨by decide, ?_, 8, rfl⟩, ⟨by decide, ?_, 8, rfl⟩, ⟨by decide, ?_, 8, rfl⟩,
      ⟨by decide, trivial, 8, rfl⟩, trivial⟩
    · intro pid new
      cases new
      decide
    · intro addr new
      rfl
    · intro pid new
      cases new
      decide
  · intro ⟨chains, accounted⟩
    have parent := accounted.chained 1 (by decide)
    have first : some 7 = (chains 1).head? := parent.linked.head_eq
    obtain ⟨filter, stored⟩ := parent.allocated 7 (List.mem_of_head? first.symm)
    have freed : (sharedCalls.foldl outcome kernelOnly).filters 7 = none := rfl
    cases freed.symm.trans stored

end Rucix.Process
