import Mathlib.Data.List.Nodup
import Mathlib.Tactic.Ring

namespace Rucix.Data

open Function List

/-! Tasks parked in a first-in first-out queue: those at an `asleep` stage of their
program.
-/

variable {Task Stage : Type*} {asleep : Stage → Prop} {stage : Task → Stage}
  {queue : List Task} {task : Task} {next : Stage}

namespace TwoTasks

/-- What the numerals of `Fin 2` rest on, under one name. -/
scoped instance neZeroTwo : NeZero 2 := ⟨by decide⟩

end TwoTasks

structure Parked (asleep : Stage → Prop) (stage : Task → Stage) (queue : List Task) : Prop where
  nodup : queue.Nodup
  mem_iff : ∀ task, task ∈ queue ↔ asleep (stage task)

theorem Parked.empty (idle : ∀ task, ¬ asleep (stage task)) : Parked asleep stage [] :=
  ⟨nodup_nil, fun task => iff_of_false not_mem_nil (idle task)⟩

variable [DecidableEq Task]

def awaken (woken : Stage → Stage) (tasks : List Task) (stage : Task → Stage) (task : Task) : Stage :=
  if task ∈ tasks then woken (stage task) else stage task

theorem awaken_iff {P : Stage → Prop} (same : ∀ stage, P (woken stage) ↔ P stage) :
    P (awaken woken tasks stage task) ↔ P (stage task) := by
  rw [awaken]
  split
  · exact same _
  · rfl

variable (parked : Parked asleep stage queue)
include parked

theorem Parked.move (before : ¬ asleep (stage task)) (after : ¬ asleep next) :
    Parked asleep (update stage task next) queue := by
  refine ⟨parked.nodup, fun other => ?_⟩
  rw [parked.mem_iff]
  by_cases same : other = task
  · subst same
    simp [before, after]
  · rw [update_of_ne same]

theorem Parked.park (before : ¬ asleep (stage task)) (after : asleep next) :
    Parked asleep (update stage task next) (queue ++ [task]) := by
  have absent : task ∉ queue := fun member => before ((parked.mem_iff task).mp member)
  refine ⟨parked.nodup.append (nodup_singleton task) (by simpa using absent), fun other => ?_⟩
  rw [mem_append, parked.mem_iff]
  by_cases same : other = task
  · subst same
    simp [after]
  · simp [same]

variable {woken : Stage → Stage} {first rest : List Task}

theorem Parked.awaken (roused : ∀ stage, asleep stage → ¬ asleep (woken stage)) (split : queue = first ++ rest) :
    Parked asleep (awaken woken first stage) rest := by
  subst split
  have apart := disjoint_of_nodup_append parked.nodup
  refine ⟨parked.nodup.sublist (sublist_append_right first rest), fun other => ?_⟩
  have whole := parked.mem_iff other
  rw [mem_append] at whole
  by_cases taken : other ∈ first
  · rw [Data.awaken, if_pos taken]
    exact iff_of_false (apart taken) (roused _ (whole.mp (.inl taken)))
  · rw [Data.awaken, if_neg taken, ← whole]
    exact ⟨.inr, fun member => member.resolve_left taken⟩

theorem Parked.awaken_of_awake (listed : first ⊆ queue) (awake : ¬ asleep (stage task)) :
    Data.awaken woken first stage task = stage task :=
  if_neg fun member => awake ((parked.mem_iff task).mp (listed member))

/-- Who is at a stage that is neither asleep nor the one woken tasks go to does
not change. -/
theorem Parked.awaken_eq_iff (listed : first ⊆ queue) (awake : ¬ asleep next)
    (elsewhere : ∀ stage, asleep stage → woken stage ≠ next) :
    Data.awaken woken first stage task = next ↔ stage task = next := by
  by_cases sleeping : asleep (stage task)
  · have other : stage task ≠ next := fun same => awake (same ▸ sleeping)
    simp only [Data.awaken]
    split
    · exact iff_of_false (elsewhere _ sleeping) other
    · rfl
  · rw [parked.awaken_of_awake listed sleeping]

omit parked in
theorem Parked.awaken_elsewhere (kept : Parked drowsy stage line) (parked : Parked asleep stage queue)
    (listed : first ⊆ queue) (apart : ∀ stage, asleep stage → ¬ drowsy stage ∧ ¬ drowsy (woken stage)) :
    Parked drowsy (Data.awaken woken first stage) line := by
  refine ⟨kept.nodup, fun other => ?_⟩
  rw [kept.mem_iff]
  by_cases sleeping : asleep (stage other)
  · obtain ⟨before, after⟩ := apart _ sleeping
    simp only [Data.awaken]
    split
    · exact iff_of_false before after
    · rfl
  · rw [parked.awaken_of_awake listed sleeping]

end Rucix.Data
