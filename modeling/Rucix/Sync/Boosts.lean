import Rucix.Sync.Mutex

namespace Rucix.Sync

open Rucix.Data Function

/-! What `mutex_lock` does to the priority of an owner: `process_set_priority` is
called for it by those that find the mutex taken, and by nobody afterwards. -/

variable {Process Key : Type*} [DecidableEq Process] [DecidableEq Key]

/-- Any number of mutexes and the priorities of the processes that use them. -/
structure MutexTable (Key Process : Type*) where
  mutexes : Key → Mutex Process
  priority : Process → Int

/-- A turn of the loop of `mutex_lock`, or the section of `mutex_unlock`. -/
inductive TableEvent (Key Process : Type*) where
  | lock (key : Key) (me : Process)
  | unlock (key : Key) (me : Process)

namespace TableEvent

def perform (table : MutexTable Key Process) : TableEvent Key Process → MutexTable Key Process
  | .lock key me =>
    { mutexes := update table.mutexes key ((table.mutexes key).lock me).1
      priority := (table.mutexes key).boostOwner table.priority me }
  | .unlock key me =>
    { table with mutexes := update table.mutexes key ((table.mutexes key).unlock me).1 }

/-- A more urgent process finds the mutex taken by this one. -/
def Boosts (owner : Process) (table : MutexTable Key Process) : TableEvent Key Process → Prop
  | .lock key me => (table.mutexes key).owner = some owner ∧ table.priority me < table.priority owner
  | .unlock _ _ => False

variable {table start final : MutexTable Key Process} {event : TableEvent Key Process}

theorem perform_priority :
    (event.perform table).priority owner = table.priority owner ↔ ¬ event.Boosts owner table := by
  cases event with
  | unlock key me => exact iff_of_true rfl id
  | lock key me =>
    simp only [perform, Boosts, Mutex.boostOwner]
    cases (table.mutexes key).owner with
    | none => simp
    | some holder =>
      by_cases urgent : table.priority me < table.priority holder
      · by_cases same : owner = holder
        · subst same
          simp [urgent, Int.ne_of_lt urgent]
        · simp [urgent, same, Ne.symm same]
      · simp only [urgent, if_false, true_iff, Option.some.injEq]
        rintro ⟨rfl, below⟩
        exact urgent below

/-- Boosts change the priority of the owner, and nothing else changes a priority. -/
theorem unboosted_run_keeps_priority
    (run : Run (fun before event after => after = perform before event ∧ ¬ Boosts me before event)
      start trace final) :
    final.priority me = start.priority me ∧ ∀ event : TableEvent Key Process,
      (event.perform final).priority me = start.priority me ↔ ¬ event.Boosts me final := by
  have kept : final.priority me = start.priority me := by
    induction run with
    | nil => rfl
    | snoc _ last ih =>
      obtain ⟨rfl, unboosted⟩ := last
      rw [perform_priority.mpr unboosted, ih]
  exact ⟨kept, fun event => by rw [← kept, perform_priority]⟩

end TableEvent

def threeProcesses : MutexTable Nat Nat where
  mutexes _ := mutexInit
  priority pid := if pid = 1 then 5 else if pid = 2 then 1 else 9

/-- Process 3 is less urgent than the owner it runs into. -/
theorem unboosted_run_keeps_priority_contended :
    ([.lock 0 1, .lock 0 3, .unlock 0 1].foldl TableEvent.perform threeProcesses).priority 1 = 5 := by
  have run : Run (fun before event after => after = TableEvent.perform before event ∧ ¬ event.Boosts 1 before)
      threeProcesses [.lock 0 1, .lock 0 3, .unlock 0 1] _ :=
    Run.of_performs ⟨⟨rfl, fun boosts => absurd boosts.1 (by decide)⟩,
      ⟨rfl, fun boosts => absurd boosts.2 (by decide)⟩, ⟨rfl, id⟩, trivial⟩
  exact (TableEvent.unboosted_run_keeps_priority run).1

/-- Process 1 of priority 5 is boosted to 1 while it has the mutex, and stays there
after the unlock. -/
theorem boost_outlives_critical_section :
    let final := [.lock 0 1, .lock 0 2, .unlock 0 1].foldl TableEvent.perform threeProcesses
    (final.mutexes 0).owner = none ∧ threeProcesses.priority 1 = 5 ∧ final.priority 1 = 1 := by
  decide

end Rucix.Sync
