import Mathlib.Data.Set.Card
import Rucix.Fs.Buffer.Identity

namespace Rucix.Fs

open Rucix.Data Function List BufferCache

/-! The size of the buffer cache.

`getblk` does not uncount the buffer that it gives up when another caller was
faster, so the counter is ahead of the buffers by the number of such races.
-/

variable {Caller : Type}

/-- When the caller adds its buffer, the search finds one of another caller. -/
def BufferOp.Loses (table : BufferHash) : BufferOp Caller → Prop
  | .addBuffer _ bdev block size _ => ∃ fuel other,
    table.searchChain bdev block size fuel (table.bhHash (hash bdev block)) = some (some other)
  | _ => False

def BufferCache.Idle (cache : BufferCache) (addr : Nat) : Prop :=
  ∃ head, cache.heads addr = some head ∧ head.count = 0 ∧ head.dirty = false

instance (cache : BufferCache) (addr : Nat) : Decidable (cache.Idle addr) :=
  decidable_of_iff ((cache.heads addr).any fun head => head.count = 0 ∧ head.dirty = false) (by
    simp [BufferCache.Idle, Option.any_eq_true])

def GetblkStage.isAllocated : GetblkStage → Bool
  | .allocated .. => true
  | _ => false

/-- `linked` are the listed buffers, `pending` the callers with a buffer of their
own, and `lost` the buffers given up so far. -/
structure BufferSystem.Accounts (system : BufferSystem Caller) (cache : BufferCache)
    (linked : Finset Nat) (pending : Finset Caller) (lost : Nat) : Prop where
  listed : ∀ addr, addr ∈ linked ↔ ∃ index, addr ∈ cache.bhHash index
  inside : ∀ caller, caller ∈ pending ↔ (system.stage caller).isAllocated = true
  count : cache.bufferCacheCount = linked.card + pending.card + lost
  idle : ((linked.filter cache.Idle).card : Int) ≤ maxBufferCache

namespace BufferCache

variable {cache : BufferCache} {addr other : Nat}

theorem idle_setHead_of_ne (different : other ≠ addr) (head : Option BufferHead) :
    (cache.setHead addr head).Idle other ↔ cache.Idle other := by
  simp only [Idle, setHead, update_of_ne different]

/-- A buffer stored with a holder or dirty is not idle, whatever it was. -/
theorem idle_of_setHead {head : Option BufferHead} (busy : ∀ stored, head = some stored →
    stored.count = 0 → stored.dirty = true) (idle : (cache.setHead addr head).Idle other) : cache.Idle other := by
  by_cases same : other = addr
  · subst same
    obtain ⟨stored, found, unused, clean⟩ := idle
    have found : head = some stored := by simpa [setHead] using found
    cases clean.symm.trans (busy stored found unused)
  · exact (idle_setHead_of_ne same head).mp idle

theorem idle_of_modify (identified : cache.Identified unreleased) (listed : addr ∈ cache.bhHash index)
    {change : BufferHead → BufferHead}
    (held : ∀ head : BufferHead, head.count = unreleased addr → (change head).count ≠ 0)
    (idle : (cache.setHead addr ((cache.heads addr).map change)).Idle other) : cache.Idle other := by
  refine idle_of_setHead (fun changed same unused => ?_) idle
  obtain ⟨head, stored, rfl⟩ := Option.map_eq_some_iff.mp same
  exact absurd unused (held head (identified.count_eq listed stored))

theorem idle_of_takeReference (identified : cache.Identified unreleased) (listed : addr ∈ cache.bhHash index)
    (idle : (cache.takeReference addr).Idle other) : cache.Idle other := by
  refine idle_of_modify identified listed (fun head counted => ?_) idle
  simp only
  omega

end BufferCache

namespace BufferSystem.Accounts

variable {system after : BufferSystem Caller} {cache later : BufferCache} {linked after' : Finset Nat}
  {pending : Finset Caller} {lost : Nat} {caller : Caller}

variable (accounts : system.Accounts cache linked pending lost)
include accounts

theorem idle_le (fewer : ∀ addr ∈ after', later.Idle addr → addr ∈ linked ∧ cache.Idle addr) :
    ((after'.filter later.Idle).card : Int) ≤ maxBufferCache := by
  have subset : after'.filter later.Idle ⊆ linked.filter cache.Idle := by
    intro addr member
    obtain ⟨member, idle⟩ := Finset.mem_filter.mp member
    exact Finset.mem_filter.mpr (fewer addr member idle)
  have card := Finset.card_le_card subset
  have bound := accounts.idle
  omega

theorem card_le_count : (linked.card : Int) ≤ cache.bufferCacheCount := by
  rw [accounts.count]
  omega

theorem congr (chains : later.bhHash = cache.bhHash) (count : later.bufferCacheCount = cache.bufferCacheCount)
    (stages : ∀ caller, (after.stage caller).isAllocated = (system.stage caller).isAllocated)
    (fewer : ∀ addr ∈ linked, later.Idle addr → cache.Idle addr) : after.Accounts later linked pending lost where
  listed addr := by rw [chains, accounts.listed]
  inside caller := by rw [stages, accounts.inside]
  count := by rw [count, accounts.count]
  idle := accounts.idle_le fun addr member idle => ⟨member, fewer addr member idle⟩

variable [DecidableEq Caller]

omit accounts in
theorem isAllocated_goto (before : (system.stage caller).isAllocated = false) (behind : place.isAllocated = false)
    (other : Caller) : ((system.goto caller place).stage other).isAllocated = (system.stage other).isAllocated := by
  by_cases same : other = caller
  · subst same
    simp only [BufferSystem.goto, update_self, behind, before]
  · simp only [BufferSystem.goto, update_of_ne same]

theorem mem_pending_insert (owns : place.isAllocated = true) (other : Caller) :
    other ∈ insert caller pending ↔ ((system.goto caller place).stage other).isAllocated = true := by
  by_cases same : other = caller
  · subst same
    simp [BufferSystem.goto, owns]
  · simp [BufferSystem.goto, same, accounts.inside]

theorem mem_pending_erase (other : Caller) :
    other ∈ pending.erase caller ↔ ((system.goto caller .outside).stage other).isAllocated = true := by
  by_cases same : other = caller
  · subst same
    simp [BufferSystem.goto, GetblkStage.isAllocated]
  · simp [BufferSystem.goto, same, accounts.inside]

theorem card_erase (mine : (system.stage caller).isAllocated = true) :
    (pending.card : Int) = (pending.erase caller).card + 1 := by
  have member := (accounts.inside caller).mpr mine
  exact_mod_cast (Finset.card_erase_add_one member).symm

variable {bdev block size addr : Nat}

variable (sound : system.Sound cache)
include sound

theorem allocate {table : BufferHash}
    (missed : system.stage caller = .missed bdev block size) (free : system.table.heads addr = none) :
    ({ system with table }.goto caller (.allocated bdev block size addr)).Accounts
      (cache.withHead addr data bdev block size) linked (insert caller pending) lost where
  listed := accounts.listed
  inside := accounts.mem_pending_insert rfl
  count := by
    have absent : caller ∉ pending := by
      rw [accounts.inside, missed]
      nofun
    rw [Finset.card_insert_of_notMem absent]
    simp only [withHead, accounts.count]
    omega
  idle := accounts.idle_le fun other member idle => by
    have unlisted := sound.represents.unlisted free
    obtain ⟨index, listed⟩ := (accounts.listed other).mp member
    have different : other ≠ addr := ne_of_mem_of_not_mem listed (unlisted index)
    exact ⟨member, (idle_setHead_of_ne different _).mp idle⟩

theorem lose {table : BufferHash} {count : Nat}
    (mine : system.stage caller = .allocated bdev block size addr) (found : cache.search bdev block size = some other) :
    (({ system with table }.goto caller .outside).setUnreleased other count).Accounts
      ((cache.takeReference other).setHead addr none) linked (pending.erase caller) (lost + 1) where
  listed := accounts.listed
  inside := accounts.mem_pending_erase
  count := by
    have owned : (pending.card : Int) = (pending.erase caller).card + 1 :=
      accounts.card_erase (by rw [mine]; rfl)
    simp only [setHead, takeReference, accounts.count]
    omega
  idle := accounts.idle_le fun target member idle => by
    have listed := (BufferSystem.Sound.search_some found).1
    have before : (cache.takeReference other).Idle target := by
      refine idle_of_setHead (fun stored same => ?_) idle
      cases same
    exact ⟨member, idle_of_takeReference sound.identified listed before⟩

theorem link {table : BufferHash} {count : Nat}
    (mine : system.stage caller = .allocated bdev block size addr) :
    (({ system with table }.goto caller .outside).setUnreleased addr count).Accounts
      (cache.link (hash bdev block) addr) (insert addr linked) (pending.erase caller) lost where
  listed other := by
    simp only [Finset.mem_insert, accounts.listed, mem_link_iff, exists_or, exists_and_left, exists_eq, and_true]
  inside := accounts.mem_pending_erase
  count := by
    have unlisted : addr ∉ linked := by
      rw [accounts.listed]
      rintro ⟨index, listed⟩
      exact sound.own.unlisted caller bdev block size addr mine index listed
    have owned : (pending.card : Int) = (pending.erase caller).card + 1 :=
      accounts.card_erase (by rw [mine]; rfl)
    rw [Finset.card_insert_of_notMem unlisted]
    simp only [BufferCache.link, accounts.count]
    omega
  idle := accounts.idle_le fun other member idle => by
    rcases Finset.mem_insert.mp member with rfl | old
    · obtain ⟨data, stored⟩ := sound.own.stored caller bdev block size other mine
      obtain ⟨head, same, unused, -⟩ := idle
      cases stored.symm.trans same
      cases unused
    · exact ⟨old, idle⟩

omit [DecidableEq Caller] in
theorem brelse {table : BufferHash} {count : Nat} (held : 0 < system.unreleased addr) :
    ∃ linked', ({ system with table }.setUnreleased addr count).Accounts (cache.brelse addr) linked'
      pending lost := by
  obtain ⟨index, listed⟩ := sound.identified.listed_of_held held
  obtain ⟨head, stored, rfl, counted⟩ := sound.identified.placed index addr listed
  have member : addr ∈ linked := (accounts.listed addr).mpr ⟨_, listed⟩
  by_cases evicts : head.count - 1 = 0 ∧ head.dirty = false ∧ maxBufferCache < cache.bufferCacheCount
  · refine ⟨linked.erase addr, ?_⟩
    rw [brelse_evicts stored evicts]
    refine ⟨fun other => ?_, accounts.inside, ?_, accounts.idle_le fun other member idle => ?_⟩
    · have nodup := sound.represents.chains.nodup (hash head.bdev head.blocknr)
      simp only [sound.identified.mem_evicted_iff nodup listed, Finset.mem_erase, accounts.listed,
        exists_and_left]
    · have card := Finset.card_erase_add_one member
      simp only [accounts.count]
      omega
    · obtain ⟨different, old⟩ := Finset.mem_erase.mp member
      exact ⟨old, (idle_setHead_of_ne different none).mp idle⟩
  · refine ⟨linked, ?_⟩
    rw [brelse_keeps stored evicts]
    refine ⟨accounts.listed, accounts.inside, accounts.count, ?_⟩
    by_cases unused : head.count - 1 = 0 ∧ head.dirty = false
    · -- a buffer that becomes idle is kept only while the counter is not over the limit
      have few : cache.bufferCacheCount ≤ maxBufferCache := by
        by_contra more
        exact evicts ⟨unused.1, unused.2, not_le.mp more⟩
      have idle : (linked.filter
          (cache.setHead addr (some { head with count := head.count - 1 })).Idle).card ≤ linked.card :=
        Finset.card_filter_le _ _
      have all := accounts.card_le_count
      omega
    · refine accounts.idle_le fun other member idle => ⟨member, idle_of_setHead ?_ idle⟩
      rintro lowered same last
      cases same
      cases dirty : head.dirty with
      | true => rfl
      | false => exact absurd ⟨last, dirty⟩ unused

omit [DecidableEq Caller] in
theorem setDirty {table : BufferHash} (held : 0 < system.unreleased addr) (dirty : Bool) :
    ({ system with table } : BufferSystem Caller).Accounts
      (cache.setHead addr ((cache.heads addr).map fun head => { head with dirty })) linked pending lost := by
  obtain ⟨index, listed⟩ := sound.identified.listed_of_held held
  refine accounts.congr rfl rfl (fun _ => rfl) fun other _ idle =>
    idle_of_modify sound.identified listed (fun head counted => ?_) idle
  simp only
  omega

theorem change {loses : Bool} (meaning : loses = true ↔ op.Loses system.table)
    (change : BufferChange system cache op after later) :
    ∃ linked' pending', after.Accounts later linked' pending' (lost + loses.toNat) := by
  have otherwise (wins : ¬op.Loses system.table) : lost + loses.toNat = lost := by
    simp [Bool.eq_false_iff.mpr (mt meaning.mp wins)]
  cases change with
  | hit outside found =>
    rw [otherwise id]
    refine ⟨linked, pending, accounts.congr rfl rfl (fun _ => rfl) fun other _ idle => ?_⟩
    exact idle_of_takeReference sound.identified (BufferSystem.Sound.search_some found).1 idle
  | miss outside =>
    rw [otherwise id]
    refine ⟨linked, pending, accounts.congr rfl rfl (isAllocated_goto ?_ rfl) fun _ _ idle => idle⟩
    rw [outside]
    rfl
  | allocated missed free represents =>
    rw [otherwise id]
    exact ⟨linked, _, accounts.allocate sound missed free⟩
  | failed missed =>
    rw [otherwise id]
    refine ⟨linked, pending, accounts.congr rfl rfl (isAllocated_goto ?_ rfl) fun _ _ idle => idle⟩
    rw [missed]
    rfl
  | @lost caller bdev block size addr other mine found =>
    have returns : (system.table.searchChain bdev block size ((cache.bhHash (hash bdev block)).length + 1)
        (system.table.bhHash (hash bdev block))).isSome :=
      (BufferHash.Represents.searchChain_spec (sound.represents.chains.linked _) fun _ => sound.represents.present).1
        (Nat.lt_succ_self _)
    obtain ⟨result, searched⟩ := Option.isSome_iff_exists.mp returns
    obtain rfl : result = some other := (sound.represents.search_eq searched).symm.trans found
    rw [meaning.mpr ⟨_, other, searched⟩]
    exact ⟨linked, _, accounts.lose sound mine found⟩
  | @linked caller bdev block size addr mine absent =>
    have wins : ¬(BufferOp.addBuffer caller bdev block size addr).Loses system.table := by
      rintro ⟨fuel, other, searched⟩
      cases (sound.represents.search_eq searched).symm.trans absent
    rw [otherwise wins]
    exact ⟨_, _, accounts.link sound mine⟩
  | brelse held =>
    rw [otherwise id]
    obtain ⟨linked', accounts⟩ := accounts.brelse sound held
    exact ⟨linked', pending, accounts⟩
  | setDirty held =>
    rw [otherwise id]
    exact ⟨linked, pending, accounts.setDirty sound held _⟩

end BufferSystem.Accounts

def RacingStep [DecidableEq Caller] (before : BufferSystem Caller) (label : BufferOp Caller × Bool)
    (after : BufferSystem Caller) : Prop :=
  BufferStep before label.1 after ∧ (label.2 = true ↔ label.1.Loses before.table)

/-- Every run is one of these. -/
theorem racing_run_of_run [DecidableEq Caller] {start final : BufferSystem Caller} {trace : List (BufferOp Caller)}
    (run : Run BufferStep start trace final) :
    ∃ labels, labels.map Prod.fst = trace ∧ Run RacingStep start labels final := by
  induction run with
  | nil => exact ⟨[], rfl, .nil⟩
  | @snoc trace before after op earlier last ih =>
    obtain ⟨labels, rfl, run⟩ := ih
    classical
    exact ⟨labels ++ [(op, decide (op.Loses before.table))], by simp, run.snoc ⟨last, decide_eq_true_iff⟩⟩

def BufferHash.linked (table : BufferHash) : Set Nat := {addr | ∃ index, table.Hashed index addr}

def BufferHash.Busy (table : BufferHash) (addr : Nat) : Prop :=
  ∃ head, table.heads addr = some head ∧ (head.count ≠ 0 ∨ head.dirty = true)

/-- The callers of `getblk` that have allocated a buffer and not finished. -/
def BufferSystem.pending (system : BufferSystem Caller) : Set Caller :=
  {caller | (system.stage caller).isAllocated = true}

/-- The state of a run in which `lost` races have been lost. -/
def BufferSystem.Accounted (system : BufferSystem Caller) (lost : Nat) : Prop :=
  ∃ cache linked pending, system.Sound cache ∧ system.Accounts cache linked pending lost

theorem BufferSystem.accounted_initial : (BufferSystem.initial : BufferSystem Caller).Accounted 0 := by
  obtain ⟨cache, sound⟩ : (BufferSystem.initial : BufferSystem Caller).Coherent :=
    BufferSystem.coherent_initial
  have empty : ∀ index, cache.bhHash index = [] := fun index =>
    (sound.represents.chains.linked index).unique (show Linked _ none [] none from rfl)
  refine ⟨cache, ∅, ∅, sound, ⟨fun addr => ?_, fun caller => ?_, ?_, ?_⟩⟩
  · simp [empty]
  · simp [BufferSystem.initial, GetblkStage.isAllocated]
  · rw [sound.represents.count]
    rfl
  · simp

theorem BufferSystem.Accounted.step [DecidableEq Caller] {after : BufferSystem Caller}
    (accounted : system.Accounted lost) (step : RacingStep system (op, loses) after) :
    after.Accounted (lost + loses.toNat) := by
  obtain ⟨cache, linked, pending, sound, accounts⟩ := accounted
  obtain ⟨later, change⟩ := sound.change step.1
  obtain ⟨linked', pending', accounts'⟩ := accounts.change sound step.2 change
  exact ⟨later, linked', pending', sound.of_change change, accounts'⟩

theorem racing_run_accounted [DecidableEq Caller] {system : BufferSystem Caller}
    {trace : List (BufferOp Caller × Bool)} (run : Run RacingStep BufferSystem.initial trace system) :
    system.Accounted (trace.countP (·.2)) := by
  induction run with
  | nil => exact BufferSystem.accounted_initial
  | @snoc trace before after label earlier last ih =>
    have accounted := ih.step last
    cases lost : label.2 with
    | true => simpa [lost] using accounted
    | false => simpa [lost] using accounted

/-- The counter is ahead of the buffers by the races lost so far, and at most
`MAX_BUFFER_CACHE` linked buffers are clean and without holders. -/
theorem buffer_cache_count_run [DecidableEq Caller] {system : BufferSystem Caller}
    {trace : List (BufferOp Caller × Bool)} (run : Run RacingStep BufferSystem.initial trace system) :
    system.table.linked.Finite ∧ system.pending.Finite ∧ system.table.bufferCacheCount =
      system.table.linked.ncard + system.pending.ncard + trace.countP (·.2) ∧
    (system.table.bufferCacheCount = system.table.linked.ncard + system.pending.ncard ↔
      ∀ label ∈ trace, label.2 = false) ∧
    (system.table.linked.ncard : Int) ≤
      maxBufferCache + {addr ∈ system.table.linked | system.table.Busy addr}.ncard := by
  obtain ⟨cache, linked, pending, sound, accounts⟩ := racing_run_accounted run
  have represents := sound.represents
  have linkedSet : system.table.linked = ↑linked := by
    ext addr
    rw [Finset.mem_coe, accounts.listed]
    exact exists_congr fun index => represents.hashed_iff
  have pendingSet : system.pending = ↑pending := by
    ext caller
    exact (accounts.inside caller).symm
  have busySet : {addr ∈ system.table.linked | system.table.Busy addr} =
      ↑(linked.filter fun addr => ¬cache.Idle addr) := by
    ext addr
    rw [Finset.mem_coe, Finset.mem_filter, linkedSet]
    refine and_congr_right fun member => ?_
    obtain ⟨index, listed⟩ := (accounts.listed addr).mp member
    obtain ⟨head, stored, -, -⟩ := sound.identified.placed index addr listed
    obtain ⟨found, here, rfl⟩ := represents.heads_of stored
    simp [BufferHash.Busy, BufferCache.Idle, here, stored, Classical.or_iff_not_imp_left]
  have count := accounts.count
  rw [represents.count] at count
  rw [busySet, linkedSet, pendingSet, Set.ncard_coe_finset, Set.ncard_coe_finset, Set.ncard_coe_finset]
  refine ⟨linked.finite_toSet, pending.finite_toSet, count, ?_, ?_⟩
  · have none : trace.countP (·.2) = 0 ↔ ∀ label ∈ trace, label.2 = false := by
      simp only [countP_eq_zero, Bool.not_eq_true]
    rw [← none]
    omega
  · have parts := Finset.card_filter_add_card_filter_not (s := linked) cache.Idle
    have idle := accounts.idle
    omega

theorem raced_bhHash (index : Nat) : raced.table.bhHash index = if index = hash 5 7 then some 100 else none := by
  by_cases same : index = hash 5 7
  · subst same
    decide
  · rw [if_neg same]
    exact update_of_ne same _ _

theorem raced_linked : raced.table.linked = {100} := by
  have alone : Linked raced.table.nextHash (raced.table.bhHash (hash 5 7)) [100] none := by decide +kernel
  ext addr
  constructor
  · rintro ⟨index, items, linked, member⟩
    by_cases same : index = hash 5 7
    · subst same
      rw [linked.unique alone] at member
      exact mem_singleton.mp member
    · rw [raced_bhHash, if_neg same] at linked
      rw [linked.unique (show Linked _ none [] none from rfl)] at member
      cases member
  · rintro rfl
    exact ⟨hash 5 7, [100], alone, mem_singleton_self 100⟩

theorem raced_pending : raced.pending = ∅ := by
  refine Set.eq_empty_of_forall_notMem fun caller inside => ?_
  have inside : (raced.stage caller).isAllocated = true := inside
  by_cases second : caller = 1
  · subst second
    cases inside
  · by_cases first : caller = 0
    · subst first
      cases inside
    · simp [raced, racingAdded, racingBoth, racingAllocated, racingMissed, BufferSystem.goto,
        BufferSystem.setUnreleased, BufferSystem.initial, first, second, GetblkStage.isAllocated] at inside

theorem buffer_cache_count_run_race :
    ∃ lost, raced.table.bufferCacheCount = raced.table.linked.ncard + raced.pending.ncard + lost ∧
      (raced.table.linked.ncard : Int) ≤
        maxBufferCache + {addr ∈ raced.table.linked | raced.table.Busy addr}.ncard := by
  obtain ⟨trace, run⟩ := raced_run
  obtain ⟨labels, -, racing⟩ := racing_run_of_run run
  obtain ⟨-, -, count, -, bound⟩ := buffer_cache_count_run racing
  exact ⟨_, count, bound⟩

/-- Two callers allocate a buffer for one block.  One buffer is linked and none
is pending, but two are counted. -/
theorem raced_count_behind : (∃ trace, Run BufferStep BufferSystem.initial trace raced) ∧
      raced.table.bufferCacheCount = 2 ∧ raced.table.linked.ncard + raced.pending.ncard = 1 := by
  refine ⟨raced_run, rfl, ?_⟩
  rw [raced_linked, raced_pending, Set.ncard_singleton, Set.ncard_empty]

end Rucix.Fs
