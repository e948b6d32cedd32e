import Rucix.Data.Run
import Rucix.Security.Seccomp.Confinement

namespace Rucix.Security

open Rucix.Data Function List

/-! Chains of filters: a system call passes when every filter lets it pass, so
attaching another filter can only take permissions away. -/

variable {prog : SockFprog} {sd stack : Block} {filters : FilterHeap} {chain : List SeccompFilter}
  {head : Option Nat} {runFuel fuel : Nat} {state after : SeccompState}

def SockFprog.BoundedJumps (prog : SockFprog) : Prop :=
  ∀ inst ∈ prog.filter, inst.opcode = .ja → inst.k.toNat < 2 ^ 31 - 2 ^ 16

theorem SockFprog.BoundedJumps.returns (bounded : prog.BoundedJumps) :
    ∃ value, seccompRunFilter prog.len sd prog = some (.returned value) := by
  refine runFilter_returns fun state _ inst fetched jump => ?_
  obtain ⟨lower, upper, member⟩ := SockFprog.fetch_eq_some fetched
  have offset := bounded inst member jump
  have short : prog.len < 2 ^ 16 := prog.bounded
  omega

def ChainOf (filters : FilterHeap) : Option Nat → List SeccompFilter → Prop
  | head, [] => head = none
  | head, filter :: rest =>
    ∃ addr, head = some addr ∧ filters addr = some filter ∧ ChainOf filters filter.prev rest

def Allows (sd : Block) (prog : SockFprog) : Prop :=
  ∃ fuel value, seccompRunFilter fuel sd prog = some (.returned value) ∧
    value &&& seccompRetAction = seccompRetAllow

theorem allows_iff (returned : seccompRunFilter fuel sd prog = some (.returned value)) :
    Allows sd prog ↔ value &&& seccompRetAction = seccompRetAllow := by
  constructor
  · rintro ⟨other, same, finished, allowed⟩
    cases Loop.run_unique returned finished
    exact allowed
  · exact fun allowed => ⟨fuel, value, returned, allowed⟩

theorem ChainOf.update_fresh {filter : SeccompFilter} (chained : ChainOf filters head chain)
    (fresh : filters addr = none) : ChainOf (update filters addr (some filter)) head chain := by
  induction chain generalizing head with
  | nil => exact chained
  | cons first rest ih =>
    obtain ⟨other, rfl, stored, later⟩ := chained
    have different : other ≠ addr := by
      rintro rfl
      cases stored.symm.trans fresh
    exact ⟨other, rfl, (update_of_ne different _ _).trans stored, ih later⟩

/-- A check that returns 0 has seen every filter allow the call. -/
theorem ChainOf.allows (chained : ChainOf filters head chain)
    (passed : checkChain filters runFuel sd fuel head = some 0) : ∀ filter ∈ chain, Allows sd filter.prog := by
  induction chain generalizing head fuel with
  | nil => exact fun _ member => nomatch member
  | cons first rest ih =>
    obtain ⟨addr, rfl, stored, later⟩ := chained
    cases fuel with
    | zero => cases passed
    | succ fuel =>
      simp only [checkChain, stored] at passed
      split at passed
      · rename_i ret returned
        split at passed
        · cases passed
        · rename_i allowed
          rw [Decidable.not_not] at allowed
          intro filter member
          rcases mem_cons.mp member with rfl | further
          · exact ⟨runFuel, ret, returned, allowed⟩
          · exact ih later passed filter further
      · cases passed

/-- With enough fuel the check returns, and returns 0 exactly when every filter allows
the call. -/
theorem ChainOf.check_returns (chained : ChainOf filters head chain)
    (returns : ∀ filter ∈ chain, ∃ value, seccompRunFilter runFuel sd filter.prog = some (.returned value))
    (enough : chain.length ≤ fuel) :
    ∃ result, checkChain filters runFuel sd fuel head = some result ∧
      (result = 0 ↔ ∀ filter ∈ chain, Allows sd filter.prog) := by
  induction chain generalizing head fuel with
  | nil =>
    cases (show head = none from chained)
    cases fuel <;> exact ⟨0, rfl, by simp⟩
  | cons first rest ih =>
    obtain ⟨addr, rfl, stored, later⟩ := chained
    obtain ⟨fuel, rfl⟩ : ∃ smaller, fuel = smaller + 1 :=
      ⟨fuel - 1, by simp only [length_cons] at enough; omega⟩
    obtain ⟨value, returned⟩ := returns first mem_cons_self
    obtain ⟨result, checked, passes⟩ := ih later
      (fun filter member => returns filter (mem_cons_of_mem _ member))
      (Nat.le_of_succ_le_succ enough)
    simp only [checkChain, stored, returned]
    by_cases allowed : value &&& seccompRetAction = seccompRetAllow
    · rw [if_neg (by simp [allowed])]
      refine ⟨result, checked, passes.trans ?_⟩
      rw [forall_mem_cons, and_iff_right ((allows_iff returned).mpr allowed)]
    · rw [if_pos allowed]
      refine ⟨-1, rfl, iff_of_false (by decide) fun all => ?_⟩
      exact allowed ((allows_iff returned).mp (all first mem_cons_self))

def SeccompState.ChainIs (state : SeccompState) (chain : List SeccompFilter) : Prop :=
  match state.currentProcess with
  | none => chain = []
  | some task => ChainOf state.filters task.seccompFilter chain

def SeccompState.Permits (state : SeccompState) (stack : Block) (syscallNr : Int) : Prop :=
  ∃ runFuel fuel, seccompCheckSyscall runFuel fuel state stack syscallNr = some 0

/-- A call of `seccomp_attach_filter`, for which `kmalloc` hands out memory that
is not in use. -/
def AttachStep (before : SeccompState) (prog : SockFprog) (after : SeccompState) : Prop :=
  ∃ memory buffer result, (∀ addr ∈ memory, before.filters addr = none) ∧
    seccompAttachFilter before prog memory buffer = some (result, after)

theorem AttachStep.extends_chain (chained : state.ChainIs chain) (step : AttachStep state prog after) :
    ∃ added, after.ChainIs (added ++ chain) := by
  obtain ⟨memory, buffer, result, fresh, returned⟩ := step
  simp only [seccompAttachFilter] at returned
  split at returned
  · cases returned
    exact ⟨[], chained⟩
  · cases returned
    exact ⟨[], chained⟩
  · rename_i task addr current
    split at returned
    · cases returned
    · cases returned
      rw [SeccompState.ChainIs, current] at chained
      refine ⟨[{ refCount := 1, prog, prev := task.seccompFilter }], addr, rfl, update_self .., ?_⟩
      exact ChainOf.update_fresh chained (fresh addr rfl)

theorem attachRun_extends_chain (chained : state.ChainIs chain) (run : Run AttachStep state progs after) :
    ∃ added, after.ChainIs (added ++ chain) := by
  induction run with
  | nil => exact ⟨[], chained⟩
  | snoc earlier last ih =>
    obtain ⟨added, extended⟩ := ih
    obtain ⟨further, longer⟩ := AttachStep.extends_chain extended last
    exact ⟨further ++ added, by rwa [append_assoc]⟩

theorem SeccompState.ChainIs.chainOf (chained : state.ChainIs chain) :
    ChainOf state.filters (state.currentProcess.bind (·.seccompFilter)) chain := by
  rw [SeccompState.ChainIs] at chained
  cases current : state.currentProcess with
  | none =>
    rw [current] at chained
    rw [show chain = [] from chained]
    rfl
  | some task =>
    rw [current] at chained
    exact chained

theorem seccompCheckSyscall_eq :
    seccompCheckSyscall runFuel fuel state stack syscallNr = checkChain state.filters runFuel
      (seccompData stack syscallNr) fuel (state.currentProcess.bind (·.seccompFilter)) := by
  rw [seccompCheckSyscall]
  cases state.currentProcess with
  | none => cases fuel <;> rfl
  | some task => rfl

/-- Filters whose unconditional jumps are bounded return after at most `len`
instructions, a check passes exactly when all of them allow the call, and no
sequence of attachments permits a call that was not permitted before. -/
theorem seccomp_filters_only_narrow (chained : state.ChainIs chain)
    (bounded : ∀ filter ∈ chain, filter.prog.BoundedJumps) (stack : Block) :
    (∀ sd, ∀ filter ∈ chain, ∃ value,
      seccompRunFilter filter.prog.len sd filter.prog = some (.returned value)) ∧
    (∀ syscallNr runFuel fuel, 2 ^ 16 ≤ runFuel → chain.length ≤ fuel →
      ∃ result, seccompCheckSyscall runFuel fuel state stack syscallNr = some result ∧
        (result = 0 ↔ ∀ filter ∈ chain, ∃ value,
          seccompRunFilter filter.prog.len (seccompData stack syscallNr) filter.prog =
            some (.returned value) ∧ value &&& seccompRetAction = seccompRetAllow)) ∧
    ∀ progs after, Run AttachStep state progs after →
      { syscallNr | after.Permits stack syscallNr } ⊆ { syscallNr | state.Permits stack syscallNr } := by
  have returns : ∀ sd, ∀ filter ∈ chain, ∃ value,
      seccompRunFilter filter.prog.len sd filter.prog = some (.returned value) :=
    fun sd filter member => (bounded filter member).returns
  have longer : ∀ sd runFuel, 2 ^ 16 ≤ runFuel → ∀ filter ∈ chain, ∃ value,
      seccompRunFilter runFuel sd filter.prog = some (.returned value) := by
    intro sd runFuel large filter member
    obtain ⟨value, returned⟩ := returns sd filter member
    have short : filter.prog.len < 2 ^ 16 := filter.prog.bounded
    exact ⟨value, Loop.run_mono returned (by omega)⟩
  refine ⟨returns, fun syscallNr runFuel fuel large enough => ?_, fun progs after run syscallNr permitted => ?_⟩
  · rw [seccompCheckSyscall_eq]
    obtain ⟨result, checked, passes⟩ :=
      chained.chainOf.check_returns (longer (seccompData stack syscallNr) runFuel large) enough
    refine ⟨result, checked, passes.trans (forall₂_congr fun filter member => ?_)⟩
    obtain ⟨value, returned⟩ := returns (seccompData stack syscallNr) filter member
    rw [allows_iff returned]
    simp [returned]
  · obtain ⟨added, extended⟩ := attachRun_extends_chain chained run
    obtain ⟨_, _, passed⟩ := permitted
    rw [seccompCheckSyscall_eq] at passed
    have allowed := extended.chainOf.allows passed
    obtain ⟨result, checked, passes⟩ := chained.chainOf.check_returns
      (longer (seccompData stack syscallNr) (2 ^ 16) (Nat.le_refl _)) (Nat.le_refl chain.length)
    have zero := passes.mpr fun filter member => allowed filter (mem_append_right added member)
    exact ⟨_, _, (seccompCheckSyscall_eq ..).trans (zero ▸ checked)⟩

def SeccompState.allowing : SeccompState :=
  ⟨update (fun _ => none) 7 (some { refCount := 1, prog := allowAll, prev := none }), some ⟨some 7⟩⟩

theorem seccomp_filters_only_narrow_allowAll :
    Run AttachStep .fresh [allowAll] .allowing ∧
    ∃ after, Run AttachStep .allowing [singleInst 0x06 0] after ∧
      (∃ result, seccompCheckSyscall (2 ^ 16) 1 .allowing Block.zero 42 = some result) ∧
      { syscallNr | after.Permits Block.zero syscallNr } ⊆
        { syscallNr | SeccompState.allowing.Permits Block.zero syscallNr } := by
  have first : AttachStep .fresh allowAll .allowing := ⟨some 7, true, 0, fun _ _ => rfl, rfl⟩
  have second : AttachStep .allowing (singleInst 0x06 0) _ :=
    ⟨some 8, true, 0, fun _ found => by cases found; rfl, rfl⟩
  have chained : SeccompState.allowing.ChainIs [{ refCount := 1, prog := allowAll, prev := none }] :=
    ⟨7, rfl, rfl, rfl⟩
  have narrow := seccomp_filters_only_narrow chained (fun filter member inst found jump => by
    cases mem_singleton.mp member
    cases mem_singleton.mp found
    exact absurd jump (by decide)) Block.zero
  obtain ⟨result, checked, -⟩ := narrow.2.1 42 (2 ^ 16) 1 (Nat.le_refl _) (Nat.le_refl _)
  exact ⟨.snoc .nil first, _, .snoc .nil second, ⟨result, checked⟩, narrow.2.2 _ _ (.snoc .nil second)⟩

end Rucix.Security
