import Rucix.Process.References.Accounting

namespace Rucix.Process

open Rucix.Data Rucix.Security Function ProcessTable

/-! Filters that are shared through `seccomp_fork` of `kernel/security/seccomp.c`: every
filter of the chain of the parent counts the child.
-/

variable {table after : ProcessTable} {filters : FilterHeap} {chains : Nat → List Nat}
  {pid child addr : Nat} {fuel : Nat}

def retainFilter (filter : SeccompFilter) : Option SeccompFilter :=
  some { filter with refCount := filter.refCount + 1 }

/-- The loop of `seccomp_fork`. -/
def retainChain : (fuel : Nat) → FilterHeap → Option Nat → Option FilterHeap :=
  changeChain retainFilter

def ProcessTable.seccompFork (fuel : Nat) (table : ProcessTable) (child parent : Nat) : Option ProcessTable :=
  match (table.procs parent).seccompFilter with
  | none => some (table.setProc child { table.procs child with seccompFilter := none })
  | some addr =>
    (retainChain fuel table.filters (some addr)).map fun filters =>
      { table with filters }.setProc child { table.procs child with seccompFilter := some addr }

/-- The child of a fork is `proc` before `seccomp_fork` is called for it. -/
inductive SharingOp where
  | attach (prog : SockFprog) (memory : Option Nat) (buffer : Bool)
  | fork (child : Nat) (proc : Proc)
  | exit

/-- Children are new, and `kmalloc` hands out memory that is not in use. -/
def SharingOp.Fresh (table : ProcessTable) : SharingOp → Prop
  | .attach _ memory _ => ∀ addr ∈ memory, table.filters addr = none
  | .fork child _ => child ∉ table.live
  | .exit => True

def ProcessTable.share (fuel : Nat) (table : ProcessTable) (pid : Nat) : SharingOp → Option ProcessTable
  | .attach prog memory buffer => table.attachFilter pid prog memory buffer
  | .fork child proc => (table.spawn child proc).seccompFork fuel child pid
  | .exit => (table.seccompExit fuel pid).map fun table => { table with live := table.live.erase pid }

def SharingStep (before : ProcessTable) (call : Nat × SharingOp) (after : ProcessTable) : Prop :=
  call.1 ∈ before.live ∧ call.2.Fresh before ∧ ∃ fuel, before.share fuel call.1 call.2 = some after

theorem FilterShares.join {live : Finset Nat} {heads : Nat → Option Nat}
    (shares : FilterShares live heads filters chains) (member : pid ∈ live) (fresh : child ∉ live) :
    FilterShares (insert child live) (update heads child (heads pid))
      (changed retainFilter filters (chains pid)) (update chains child (chains pid)) := by
  have others : ∀ {other}, other ∈ live → other ≠ child := fun present same => fresh (same ▸ present)
  have kept : ∀ other ∈ live,
      FilterChain (changed retainFilter filters (chains pid)) (heads other) (chains other) := by
    intro other present
    refine (shares.chained other present).congr fun place listed filter stored => ?_
    by_cases shared : place ∈ chains pid
    · exact ⟨{ filter with refCount := filter.refCount + 1 },
        by simp [changed, shared, stored, retainFilter], rfl⟩
    · exact ⟨filter, by simp [changed, shared, stored], rfl⟩
  refine ⟨fun other present => ?_, fun place found stored => ?_⟩
  · rcases Finset.mem_insert.mp present with rfl | old
    · rw [update_self, update_self]
      exact kept pid member
    · rw [update_of_ne (others old), update_of_ne (others old)]
      exact kept other old
  · have total : holders (insert child live) (update chains child (chains pid)) place =
        holders live chains place + if place ∈ chains pid then 1 else 0 := by
      rw [holders, card_filter_insert fresh, update_self]
      congr 2
      exact Finset.filter_congr fun other old => by rw [update_of_ne (others old)]
    rw [total]
    simp only [changed] at stored
    by_cases listed : place ∈ chains pid
    · rw [if_pos listed] at stored ⊢
      obtain ⟨filter, known, same⟩ := Option.bind_eq_some_iff.mp stored
      cases same
      have count := shares.counted place filter known
      dsimp only
      omega
    · rw [if_neg listed] at stored ⊢
      rw [shares.counted place found stored, Nat.add_zero]

def Referenced (filters : FilterHeap) : Prop :=
  ∀ addr filter, filters addr = some filter → 0 < filter.refCount

theorem Referenced.update (referenced : Referenced filters) (positive : 0 < filter.refCount) :
    Referenced (update filters addr (some filter)) := by
  intro place found stored
  by_cases here : place = addr
  · subst here
    rw [update_self, Option.some.injEq] at stored
    rw [← stored]
    exact positive
  · rw [update_of_ne here] at stored
    exact referenced place found stored

theorem Referenced.changed (referenced : Referenced filters)
    (positive : ∀ filter kept, 0 < filter.refCount → change filter = some kept → 0 < kept.refCount) (chain : List Nat) :
    Referenced (changed change filters chain) := by
  intro place found stored
  simp only [Process.changed] at stored
  split at stored
  · obtain ⟨filter, known, kept⟩ := Option.bind_eq_some_iff.mp stored
    exact positive filter found (referenced place filter known) kept
  · exact referenced place found stored

theorem dropFilter_positive (dropped : dropFilter filter = some kept) : 0 < kept.refCount := by
  rw [dropFilter] at dropped
  split at dropped
  · cases dropped
  · cases dropped
    dsimp only
    omega

structure ProcessTable.Shared (table : ProcessTable) (chains : Nat → List Nat) : Prop where
  shares : FilterShares table.live (fun pid => (table.procs pid).seccompFilter) table.filters chains
  referenced : Referenced table.filters

/-- The table after `seccomp_fork` for a new child, where `chain` is that of the
parent. -/
def ProcessTable.forked (table : ProcessTable) (chain : List Nat) (pid child : Nat) (proc : Proc) :
    ProcessTable :=
  { table.spawn child proc with filters := changed retainFilter table.filters chain }.setProc child
    { proc with seccompFilter := (table.procs pid).seccompFilter }

namespace ProcessTable.Shared

variable (shared : table.Shared chains)
include shared

/-- A filter is allocated as long as a chain contains it. -/
theorem freed_iff (addr : Nat) : table.filters addr = none ↔ holders table.live chains addr = 0 := by
  constructor
  · intro freed
    rw [holders, Finset.card_eq_zero, Finset.filter_eq_empty_iff]
    intro pid member
    exact shared.shares.unlisted freed pid member
  · intro unheld
    by_contra allocated
    obtain ⟨filter, stored⟩ := Option.ne_none_iff_exists'.mp allocated
    have count := shared.shares.counted addr filter stored
    have positive := shared.referenced addr filter stored
    omega

section

variable (member : pid ∈ table.live)
include member

theorem attachFilter (fresh : ∀ addr ∈ memory, table.filters addr = none)
    (attached : table.attachFilter pid prog memory buffer = some after) : ∃ later, after.Shared later := by
  simp only [ProcessTable.attachFilter, Option.map_eq_some_iff] at attached
  obtain ⟨⟨result, state⟩, returned, rfl⟩ := attached
  cases memory with
  | none =>
    cases returned
    refine ⟨chains, shared.shares.congr fun other _ => ?_, shared.referenced⟩
    simp [setProc]
  | some addr =>
    simp only [seccompAttachFilter] at returned
    split at returned
    · cases returned
    · cases returned
      let filter : SeccompFilter := { refCount := 1, prog, prev := (table.procs pid).seccompFilter }
      have one : filter.refCount = 1 := rfl
      have shares := shared.shares.attach member (fresh addr rfl) one rfl
      rw [← table.heads_setProc] at shares
      exact ⟨_, shares, shared.referenced.update Int.one_pos⟩

theorem seccompFork (fresh : child ∉ table.live) (proc : Proc) :
    (table.spawn child proc).seccompFork fuel child pid =
      if (chains pid).length ≤ fuel then some (table.forked (chains pid) pid child proc) else none := by
  have different : pid ≠ child := fun same => fresh (same ▸ member)
  have chained := shared.shares.chained pid member
  have parent : ((table.spawn child proc).procs pid).seccompFilter = (table.procs pid).seccompFilter := by
    simp [spawn, setProc, different]
  simp only [ProcessTable.seccompFork, parent]
  cases head : (table.procs pid).seccompFilter with
  | none =>
    rw [head] at chained
    have empty : chains pid = [] := chained.unique .of_none
    simp [forked, head, empty, changed_nil, spawn, setProc]
  | some addr =>
    rw [head] at chained
    have walked : retainChain fuel table.filters (some addr) = _ := changeChain_eq chained
    simp only [forked, head, spawn, setProc, walked]
    split <;> simp

theorem fork (fresh : child ∉ table.live) (proc : Proc) :
    (table.forked (chains pid) pid child proc).Shared (update chains child (chains pid)) := by
  refine ⟨(shared.shares.join member fresh).congr fun other present => ?_,
    shared.referenced.changed (fun filter kept positive same => ?_) (chains pid)⟩
  · by_cases here : other = child
    · subst here
      simp [forked, setProc]
    · simp [forked, spawn, setProc, here]
  · cases same
    dsimp only
    omega

theorem exit (returned : table.share fuel pid .exit = some after) : after.Shared chains := by
  simp only [share, seccompExit, Option.map_map, Option.map_eq_some_iff] at returned
  obtain ⟨filters, walked, rfl⟩ := returned
  rw [releaseChain_eq (shared.shares.chained pid member), Option.ite_none_right_eq_some] at walked
  rw [← Option.some.inj walked.2]
  refine ⟨(shared.shares.leave member).congr fun other present => ?_, ?_⟩
  · simp [setProc, (Finset.mem_erase.mp present).1]
  · exact shared.referenced.changed (fun _ _ _ dropped => dropFilter_positive dropped) (chains pid)

theorem exit_returns : ∃ fuel after, table.share fuel pid .exit = some after := by
  refine ⟨(chains pid).length, ?_⟩
  simp only [share, seccompExit, releaseChain_eq (shared.shares.chained pid member),
    Nat.le_refl]
  exact ⟨_, rfl⟩

end

theorem step (step : SharingStep table call after) : ∃ later, after.Shared later := by
  obtain ⟨pid, op⟩ := call
  obtain ⟨member, fresh, fuel, returned⟩ := step
  cases op with
  | attach prog memory buffer => exact shared.attachFilter member fresh returned
  | fork child proc =>
    have walked : (table.spawn child proc).seccompFork fuel child pid = some after := returned
    rw [shared.seccompFork member fresh proc, Option.ite_none_right_eq_some] at walked
    rw [← Option.some.inj walked.2]
    exact ⟨_, shared.fork member fresh proc⟩
  | exit => exact ⟨chains, shared.exit member returned⟩

end ProcessTable.Shared

def ProcessTable.Unfiltered (table : ProcessTable) : Prop :=
  (∀ pid ∈ table.live, (table.procs pid).seccompFilter = none) ∧ ∀ addr, table.filters addr = none

theorem ProcessTable.Unfiltered.shared (unfiltered : table.Unfiltered) : table.Shared fun _ => [] where
  shares := by
    refine ⟨fun pid member => ?_, fun addr filter stored => ?_⟩
    · rw [unfiltered.1 pid member]
      exact FilterChain.of_none
    · cases stored.symm.trans (unfiltered.2 addr)
  referenced addr filter stored := by cases stored.symm.trans (unfiltered.2 addr)

/-- Every chain consists of allocated filters, the count of a filter is the number of chains
that contain it, and a filter is freed when this number is 0.  The next fork or exit never
gets to a freed filter. -/
theorem seccomp_sharing_run {start : ProcessTable} {calls : List (Nat × SharingOp)} (unfiltered : start.Unfiltered)
    (run : Run SharingStep start calls table) : ∃ chains,
      (∀ pid ∈ table.live, FilterChain table.filters (table.procs pid).seccompFilter (chains pid)) ∧
      (∀ addr filter, table.filters addr = some filter →
        filter.refCount = holders table.live chains addr) ∧
      (∀ addr, table.filters addr = none ↔ holders table.live chains addr = 0) ∧
      (∀ pid ∈ table.live, ∀ child ∉ table.live, ∀ proc,
        ∃ fuel after, table.share fuel pid (.fork child proc) = some after) ∧
      ∀ pid ∈ table.live, ∃ fuel after, table.share fuel pid .exit = some after := by
  have reached : ∃ chains, table.Shared chains := by
    induction run with
    | nil => exact ⟨_, unfiltered.shared⟩
    | snoc earlier last ih =>
      obtain ⟨chains, shared⟩ := ih
      exact shared.step last
  obtain ⟨chains, shared⟩ := reached
  refine ⟨chains, shared.shares.chained, shared.shares.counted, shared.freed_iff, ?_, ?_⟩
  · intro pid member child fresh proc
    exact ⟨_, _, (shared.seccompFork member fresh proc).trans (if_pos (Nat.le_refl _))⟩
  · intro pid member
    exact shared.exit_returns member

def sharingCalls : List (Nat × SharingOp) :=
  [(1, .attach allowAll (some 7) true), (1, .fork 2 { seccompFilter := some 7, cgroups := none }),
    (2, .attach allowAll (some 8) true), (1, .attach allowAll (some 9) true), (1, .exit)]

def unfilteredProcess : ProcessTable where
  live := {1}
  procs := fun _ => { seccompFilter := none, cgroups := none }
  filters := fun _ => none
  cssSets := fun _ => none

def shareAll (table : ProcessTable) (call : Nat × SharingOp) : ProcessTable :=
  (table.share 8 call.1 call.2).getD table

theorem seccomp_sharing_run_siblings :
    Run SharingStep unfilteredProcess sharingCalls (sharingCalls.foldl shareAll unfilteredProcess) ∧
    ∃ chains : Nat → List Nat, ∀ pid ∈ (sharingCalls.foldl shareAll unfilteredProcess).live,
      FilterChain (sharingCalls.foldl shareAll unfilteredProcess).filters
        ((sharingCalls.foldl shareAll unfilteredProcess).procs pid).seccompFilter (chains pid) := by
  have run : Run SharingStep unfilteredProcess sharingCalls
      (sharingCalls.foldl shareAll unfilteredProcess) := by
    apply Run.of_performs
    refine ⟨⟨by decide, ?_, 8, rfl⟩, ⟨by decide, (by decide : 2 ∉ ({1} : Finset Nat)), 8, rfl⟩, ⟨by decide, ?_, 8, rfl⟩,
      ⟨by decide, ?_, 8, rfl⟩, ⟨by decide, trivial, 8, rfl⟩, trivial⟩
    all_goals
      intro addr new
      cases new
      rfl
  have unfiltered : unfilteredProcess.Unfiltered := ⟨fun _ _ => rfl, fun _ => rfl⟩
  obtain ⟨chains, chained, -⟩ := seccomp_sharing_run unfiltered run
  exact ⟨run, chains, chained⟩

end Rucix.Process
