import Mathlib.Data.List.Nodup
import Mathlib.Logic.Relation
import Mathlib.Order.Defs.PartialOrder

namespace Rucix.Data

open Function List

/-! Locks with an owner, a queue of waiting tasks and, for each task, the list of
the locks it holds.

A lock that is given back stays free until some task takes it.
-/

universe u v w

@[ext]
structure LockTable (Task : Type u) (Lock : Type v) where
  owner : Lock → Option Task
  queue : Lock → List Task
  held : Task → List Lock
  waiting : Task → Option Lock

namespace LockTable

variable {Task : Type u} {Lock : Type v} {Urgency : Type w}

/-- A task stands in the queue of a lock that another one owns. -/
def WaitsFor (table : LockTable Task Lock) (waiter owner : Task) : Prop :=
  ∃ lock, table.owner lock = some owner ∧ waiter ∈ table.queue lock

/-- A free lock that is waited for has a waiter that will try to take it. -/
def Attended (table : LockTable Task Lock) (awake : Task → Prop) : Prop :=
  ∀ lock, table.owner lock = none → table.queue lock ≠ [] → ∃ task ∈ table.queue lock, awake task

/-- An owner is at least as urgent as the tasks that wait for it; smaller is
more urgent. -/
def Inherits [LE Urgency] (table : LockTable Task Lock) (priority : Task → Urgency) : Prop :=
  ∀ ⦃waiter owner⦄, table.WaitsFor waiter owner → priority owner ≤ priority waiter

theorem Inherits.trans [Preorder Urgency] {table : LockTable Task Lock} {priority : Task → Urgency}
    (inherits : table.Inherits priority) {waiter owner : Task} (chain : Relation.TransGen table.WaitsFor waiter owner) :
    priority owner ≤ priority waiter := by
  induction chain with
  | single direct => exact inherits direct
  | tail _ direct ih => exact le_trans (inherits direct) ih

variable [DecidableEq Task] [DecidableEq Lock]

structure Sound (table : LockTable Task Lock) : Prop where
  held : ∀ task lock, (table.held task).count lock = if table.owner lock = some task then 1 else 0
  nodup : ∀ lock, (table.queue lock).Nodup
  queued : ∀ task lock, task ∈ table.queue lock ↔ table.waiting task = some lock
  apart : ∀ task lock, table.owner lock = some task → table.waiting task ≠ some lock

def take (table : LockTable Task Lock) (task : Task) (lock : Lock) : LockTable Task Lock :=
  { table with
    owner := update table.owner lock (some task)
    held := update table.held task (lock :: table.held task) }

def release (table : LockTable Task Lock) (task : Task) (lock : Lock) : LockTable Task Lock :=
  { table with
    owner := update table.owner lock none
    held := update table.held task ((table.held task).erase lock) }

def enqueue (table : LockTable Task Lock) (task : Task) (lock : Lock) : LockTable Task Lock :=
  { table with
    queue := update table.queue lock (table.queue lock ++ [task])
    waiting := update table.waiting task (some lock) }

def leave (table : LockTable Task Lock) (task : Task) (lock : Lock) : LockTable Task Lock :=
  { table with
    queue := update table.queue lock ((table.queue lock).erase task)
    waiting := update table.waiting task none }

variable {table : LockTable Task Lock} {task : Task} {lock : Lock}

theorem take_leave_comm : (table.take task lock).leave task lock = (table.leave task lock).take task lock :=
  rfl

namespace Sound

variable (sound : table.Sound)
include sound

theorem mem_held : lock ∈ table.held task ↔ table.owner lock = some task := by
  rw [← count_pos_iff, sound.held]
  split <;> simp_all

theorem not_waitsFor (idle : table.waiting task = none) (owner : Task) : ¬table.WaitsFor task owner := by
  rintro ⟨lock, -, queued⟩
  rw [sound.queued, idle] at queued
  cases queued

theorem not_waitsFor_self : ¬table.WaitsFor task task := by
  rintro ⟨lock, owned, queued⟩
  exact sound.apart task lock owned ((sound.queued task lock).mp queued)

/-- A lock changes hands between `task` and nobody. -/
theorem setOwner {locks : List Lock}
    (others : ∀ other, other ≠ task → table.owner lock ≠ some other ∧ taker ≠ some other)
    (counts : ∀ key, locks.count key = if update table.owner lock taker key = some task then 1 else 0)
    (apart : taker = some task → table.waiting task ≠ some lock) :
    { table with
      owner := update table.owner lock taker
      held := update table.held task locks }.Sound := by
  refine ⟨fun other key => ?_, sound.nodup, sound.queued, fun other key owned => ?_⟩ <;> dsimp only at *
  · by_cases same : other = task
    · subst same
      rw [update_self]
      exact counts key
    · rw [update_of_ne same, sound.held]
      by_cases sameLock : key = lock
      · subst sameLock
        simp [others other same]
      · simp [sameLock]
  · by_cases sameLock : key = lock
    · subst sameLock
      rw [update_self] at owned
      obtain rfl : other = task := by_contra fun different => (others other different).2 owned
      exact apart owned
    · rw [update_of_ne sameLock] at owned
      exact sound.apart other key owned

theorem take (free : table.owner lock = none) (elsewhere : table.waiting task ≠ some lock) :
    (table.take task lock).Sound := by
  refine sound.setOwner (fun other same => ⟨by simp [free], by simpa using Ne.symm same⟩) (fun key => ?_)
    fun _ => elsewhere
  have counted := sound.held task key
  by_cases sameLock : key = lock
  · subst sameLock
    simp [counted, free]
  · simp [counted, sameLock, Ne.symm sameLock]

theorem release (owned : table.owner lock = some task) : (table.release task lock).Sound := by
  refine sound.setOwner (fun other same => ⟨by simpa [owned] using Ne.symm same, nofun⟩) (fun key => ?_) nofun
  have counted := sound.held task key
  by_cases sameLock : key = lock
  · subst sameLock
    simp [counted, owned]
  · simp [counted, sameLock]

/-- A task begins or stops to wait for a lock. -/
theorem setQueue {tasks : List Task} (nodup : tasks.Nodup)
    (mem : ∀ other, other ∈ tasks ↔ if other = task then place = some lock else table.waiting other = some lock)
    (moves : ∀ key, key ≠ lock → table.waiting task ≠ some key ∧ place ≠ some key)
    (apart : place = some lock → table.owner lock ≠ some task) :
    { table with
      queue := update table.queue lock tasks
      waiting := update table.waiting task place }.Sound := by
  refine ⟨sound.held, ?_, fun other key => ?_, fun other key owned => ?_⟩ <;> dsimp only at *
  · exact (forall_update_iff table.queue fun _ tasks => tasks.Nodup).mpr ⟨nodup, fun key _ => sound.nodup key⟩
  · by_cases sameLock : key = lock
    · subst sameLock
      rw [update_self, mem, update_apply]
      split <;> rfl
    · obtain ⟨before, after⟩ := moves key sameLock
      rw [update_of_ne sameLock, sound.queued]
      by_cases same : other = task
      · subst same
        rw [update_self]
        exact iff_of_false before after
      · rw [update_of_ne same]
  · by_cases same : other = task
    · subst same
      rw [update_self]
      intro waits
      obtain rfl : key = lock := by_contra fun different => (moves key different).2 waits
      exact apart waits owned
    · rw [update_of_ne same]
      exact sound.apart other key owned

theorem enqueue (idle : table.waiting task = none) (different : table.owner lock ≠ some task) :
    (table.enqueue task lock).Sound := by
  have absent : task ∉ table.queue lock := by
    rw [sound.queued, idle]
    nofun
  refine sound.setQueue ?_ (fun other => ?_) (fun key other => ⟨by simp [idle], by simpa using Ne.symm other⟩)
    fun _ => different
  · simpa using (sound.nodup lock).concat absent
  · rw [mem_append, sound.queued]
    split
    · simp [*]
    · simp [*]

theorem leave (waiting : table.waiting task = some lock) : (table.leave task lock).Sound := by
  refine sound.setQueue ((sound.nodup lock).erase task) (fun other => ?_)
    (fun key other => ⟨by simpa [waiting] using Ne.symm other, nofun⟩) nofun
  rw [(sound.nodup lock).mem_erase_iff, sound.queued]
  split
  · simp [*]
  · simp [*]

end Sound

namespace Attended

variable {awake later : Task → Prop}

variable (attended : table.Attended awake)
include attended

theorem take : (table.take task lock).Attended awake := by
  intro key free waited
  by_cases sameLock : key = lock
  · subst sameLock
    simp [LockTable.take] at free
  · simp only [LockTable.take, update_of_ne sameLock] at free
    exact attended key free waited

omit [DecidableEq Task] in
theorem setQueue (owned : table.owner lock ≠ none) :
    { table with queue := update table.queue lock tasks, waiting := places }.Attended awake := by
  intro key free waited
  have different : key ≠ lock := by
    rintro rfl
    exact owned free
  simp only [update_of_ne different] at waited ⊢
  exact attended key free waited

theorem sleep (sound : table.Sound) (waiting : table.waiting task = some lock) (owned : table.owner lock ≠ none)
    (others : ∀ other, other ≠ task → awake other → later other) : table.Attended later := by
  intro key free waited
  obtain ⟨attendant, queued, attends⟩ := attended key free waited
  refine ⟨attendant, queued, others attendant ?_ attends⟩
  rintro rfl
  rw [sound.queued, waiting] at queued
  cases queued
  exact owned free

theorem release (more : ∀ other, awake other → later other)
    (chosen : table.queue lock ≠ [] → ∃ task ∈ table.queue lock, later task) :
    (table.release task lock).Attended later := by
  intro key free waited
  by_cases sameLock : key = lock
  · subst sameLock
    exact chosen waited
  · simp only [LockTable.release, update_of_ne sameLock] at free
    obtain ⟨attendant, queued, attends⟩ := attended key free waited
    exact ⟨attendant, queued, more attendant attends⟩

end Attended

section Inheritance

variable [Preorder Urgency] {priority : Task → Urgency} {urgency : Urgency} {owner : Task}

theorem inherits_take_iff (free : table.owner lock = none) :
    (table.take task lock).Inherits priority ↔
      table.Inherits priority ∧ ∀ waiter ∈ table.queue lock, priority task ≤ priority waiter := by
  constructor
  · intro inherits
    refine ⟨?_, fun waiter queued => inherits ⟨lock, by simp [LockTable.take], queued⟩⟩
    rintro waiter owner ⟨key, owned, queued⟩
    have different : key ≠ lock := by
      rintro rfl
      rw [free] at owned
      cases owned
    exact inherits ⟨key, by simpa [LockTable.take, different] using owned, queued⟩
  · rintro ⟨inherits, urgent⟩ waiter owner ⟨key, owned, queued⟩
    by_cases sameLock : key = lock
    · subst sameLock
      simp only [LockTable.take, update_self, Option.some.injEq] at owned
      subst owned
      exact urgent waiter queued
    · simp only [LockTable.take, update_of_ne sameLock] at owned
      exact inherits ⟨key, owned, queued⟩

theorem inherits_enqueue_iff (owned : table.owner lock = some owner) :
    (table.enqueue task lock).Inherits priority ↔
      table.Inherits priority ∧ priority owner ≤ priority task := by
  constructor
  · intro inherits
    refine ⟨?_, inherits ⟨lock, owned, by simp [LockTable.enqueue]⟩⟩
    rintro waiter holder ⟨key, holds, queued⟩
    refine inherits ⟨key, holds, ?_⟩
    by_cases sameLock : key = lock
    · subst sameLock
      simp [LockTable.enqueue, queued]
    · simpa [LockTable.enqueue, sameLock] using queued
  · rintro ⟨inherits, urgent⟩ waiter holder ⟨key, holds, queued⟩
    by_cases sameLock : key = lock
    · subst sameLock
      have same : owner = holder := Option.some.inj (owned.symm.trans holds)
      subst same
      simp only [LockTable.enqueue, update_self, mem_append, mem_singleton] at queued
      rcases queued with queued | rfl
      · exact inherits ⟨key, holds, queued⟩
      · exact urgent
    · simp only [LockTable.enqueue, update_of_ne sameLock] at queued
      exact inherits ⟨key, holds, queued⟩

variable (inherits : table.Inherits priority)
include inherits

theorem Inherits.leave : (table.leave task lock).Inherits priority := by
  rintro waiter owner ⟨key, owned, queued⟩
  refine inherits ⟨key, owned, ?_⟩
  by_cases sameLock : key = lock
  · subst sameLock
    exact mem_of_mem_erase (by simpa [LockTable.leave] using queued)
  · simpa [LockTable.leave, sameLock] using queued

theorem Inherits.release : (table.release task lock).Inherits priority := by
  rintro waiter owner ⟨key, owned, queued⟩
  by_cases sameLock : key = lock
  · subst sameLock
    simp [LockTable.release] at owned
  · simp only [LockTable.release, update_of_ne sameLock] at owned
    exact inherits ⟨key, owned, queued⟩

/-- Making one task more urgent is right exactly when those it waits for are as
urgent already. -/
theorem Inherits.boost_iff (sound : table.Sound) (raised : urgency ≤ priority task) :
    table.Inherits (update priority task urgency) ↔
      ∀ owner, table.WaitsFor task owner → priority owner ≤ urgency := by
  constructor
  · intro boosted owner waits
    have different : owner ≠ task := by
      rintro rfl
      exact sound.not_waitsFor_self waits
    simpa [different] using boosted waits
  · intro urgent waiter owner waits
    by_cases sameWaiter : waiter = task
    · subst sameWaiter
      have different : owner ≠ waiter := by
        rintro rfl
        exact sound.not_waitsFor_self waits
      simpa [different] using urgent owner waits
    · by_cases sameOwner : owner = task
      · subst sameOwner
        simpa [sameWaiter] using le_trans raised (inherits waits)
      · simpa [sameWaiter, sameOwner] using inherits waits

/-- A task that waits for nobody may take any priority that is as urgent as the
waiters on the locks it holds. -/
theorem Inherits.restore (sound : table.Sound) (idle : table.waiting task = none)
    (urgent : ∀ lock ∈ table.held task, ∀ waiter ∈ table.queue lock, urgency ≤ priority waiter) :
    table.Inherits (update priority task urgency) := by
  intro waiter owner waits
  have sameWaiter : waiter ≠ task := by
    rintro rfl
    exact sound.not_waitsFor idle owner waits
  by_cases sameOwner : owner = task
  · subst sameOwner
    obtain ⟨lock, owned, queued⟩ := waits
    simpa [sameWaiter] using urgent lock ((sound.mem_held).mpr owned) waiter queued
  · simpa [sameWaiter, sameOwner] using inherits waits

end Inheritance

end LockTable

end Rucix.Data
