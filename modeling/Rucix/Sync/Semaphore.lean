import Mathlib.Data.Finset.Card
import Rucix.Data.Parking
import Rucix.Data.Run

namespace Rucix.Sync

open Rucix.Data Function List TwoTasks

/-! Counting semaphores: `sem_wait` and `sem_post` of `kernel/sync/waitqueue.c`.

The steps are the sections under `sem->lock` and `sem->wait.lock`.  A task is any
thread of control that calls them.
-/

/-- Where a task is: in `sem_wait` before its first test, behind a test that
failed, asleep, or woken up and before the next test; or in `sem_post` between
the increment and `wake_up`. -/
inductive SemStage where
  | outside
  | testing
  | leaving
  | asleep
  | retrying
  | posted
deriving DecidableEq, Repr

structure Semaphore (Task : Type*) where
  count : Int
  wait : List Task
  stage : Task → SemStage

inductive SemOp (Task : Type*) where
  | semWait (task : Task)
  | test (task : Task)
  | sleepOn (task : Task)
  | semPost (task : Task)
  | wakeUp (task : Task)

variable {Task : Type*}

def semInit (count : Int) : Semaphore Task where
  count := count
  wait := []
  stage := fun _ => .outside

namespace Semaphore

/-- A `sem_post` that has yet to call `wake_up`, or a woken task that has yet to
test the count again. -/
def Pending (sem : Semaphore Task) (task : Task) : Prop :=
  sem.stage task = .posted ∨ sem.stage task = .retrying

instance (sem : Semaphore Task) (task : Task) : Decidable (sem.Pending task) :=
  inferInstanceAs (Decidable (_ ∨ _))

/-- A post has been lost: nobody will wake the sleeping task. -/
def Lost (sem : Semaphore Task) : Prop :=
  0 < sem.count ∧ (∃ task, sem.stage task = .asleep) ∧ ∀ task, ¬ sem.Pending task

def Covered (sem : Semaphore Task) : Prop :=
  ∃ pending : Finset Task, (∀ task ∈ pending, sem.Pending task) ∧ sem.count ≤ pending.card

theorem Covered.of_nonpos {sem : Semaphore Task} (spent : sem.count ≤ 0) : sem.Covered :=
  ⟨∅, by simp, by simpa using spent⟩

theorem Covered.not_lost {sem : Semaphore Task} (covered : sem.Covered) : ¬ sem.Lost := by
  rintro ⟨positive, -, nobody⟩
  obtain ⟨pending, members, bound⟩ := covered
  have empty : pending = ∅ := Finset.eq_empty_of_forall_notMem fun task member =>
    nobody task (members task member)
  rw [empty, Finset.card_empty] at bound
  exact absurd positive (by omega)

variable [DecidableEq Task]

def goto (sem : Semaphore Task) (task : Task) (stage : SemStage) : Semaphore Task :=
  { sem with stage := update sem.stage task stage }

/-- One turn of the loop of `sem_wait` under `sem->lock`. -/
def test (sem : Semaphore Task) (task : Task) : Semaphore Task :=
  if 0 < sem.count then { sem with count := sem.count - 1 }.goto task .outside
  else sem.goto task .leaving

/-- `sleep_on(&sem->wait)` -/
def sleepOn (sem : Semaphore Task) (task : Task) : Semaphore Task :=
  { sem with wait := sem.wait ++ [task] }.goto task .asleep

/-- `sem_post` under `sem->lock`. -/
def increment (sem : Semaphore Task) (task : Task) : Semaphore Task :=
  { sem with count := sem.count + 1 }.goto task .posted

/-- `wake_up(&sem->wait)` at the end of `sem_post`. -/
def wakeUp (sem : Semaphore Task) (task : Task) : Semaphore Task :=
  { sem with
    wait := sem.wait.drop 1
    stage := awaken (fun _ => .retrying) (sem.wait.take 1) sem.stage }.goto task .outside

end Semaphore

/-- A task takes the steps of its calls in turn. -/
def SemOp.Enabled (sem : Semaphore Task) : SemOp Task → Prop
  | .semWait task | .semPost task => sem.stage task = .outside
  | .test task => sem.stage task = .testing ∨ sem.stage task = .retrying
  | .sleepOn task => sem.stage task = .leaving
  | .wakeUp task => sem.stage task = .posted

def SemOp.perform [DecidableEq Task] (sem : Semaphore Task) : SemOp Task → Semaphore Task
  | .semWait task => sem.goto task .testing
  | .test task => sem.test task
  | .sleepOn task => sem.sleepOn task
  | .semPost task => sem.increment task
  | .wakeUp task => sem.wakeUp task

def SemStep [DecidableEq Task] (before : Semaphore Task) (op : SemOp Task) (after : Semaphore Task) :
    Prop :=
  op.Enabled before ∧ after = op.perform before

/-- A task falls asleep only while the count is covered by pending tasks. -/
def SemOp.Timely (sem : Semaphore Task) : SemOp Task → Prop
  | .sleepOn _ => sem.Covered
  | _ => True

namespace Semaphore

variable [DecidableEq Task] {sem after : Semaphore Task} {task other : Task} {op : SemOp Task}

@[simp] theorem goto_count (stage : SemStage) : (sem.goto task stage).count = sem.count := rfl

@[simp] theorem goto_self (stage : SemStage) : (sem.goto task stage).stage task = stage :=
  update_self ..

theorem goto_of_ne (stage : SemStage) (different : other ≠ task) :
    (sem.goto task stage).stage other = sem.stage other :=
  update_of_ne different ..

/-- The sleeping tasks are those in the queue, and as long as there are any,
the count is covered. -/
structure Sound (sem : Semaphore Task) : Prop where
  parked : Parked (· = .asleep) sem.stage sem.wait
  covered : ∀ task, sem.stage task = .asleep → sem.Covered

omit [DecidableEq Task] in
theorem sound_semInit (count : Int) : (semInit count : Semaphore Task).Sound :=
  ⟨.empty fun _ => by simp [semInit], fun _ asleep => by cases asleep⟩

theorem asleep_of_goto {stage : SemStage} (awake : stage ≠ .asleep)
    (asleep : (sem.goto task stage).stage other = .asleep) : sem.stage other = .asleep := by
  have different : other ≠ task := by
    rintro rfl
    rw [goto_self] at asleep
    exact awake asleep
  rwa [goto_of_ne stage different] at asleep

theorem Pending.goto {stage : SemStage} (pending : sem.Pending other) (different : other ≠ task) :
    (sem.goto task stage).Pending other := by
  rwa [Pending, goto_of_ne stage different]

theorem Covered.goto {stage : SemStage} (covered : sem.Covered) (idle : ¬ sem.Pending task) :
    (sem.goto task stage).Covered := by
  obtain ⟨pending, members, bound⟩ := covered
  refine ⟨pending, fun other member => (members other member).goto ?_, bound⟩
  rintro rfl
  exact idle (members _ member)

/-- Taking one unit needs at most one of the pending tasks. -/
theorem Covered.take (covered : sem.Covered) (stage : SemStage) :
    ({ sem with count := sem.count - 1 }.goto task stage).Covered := by
  obtain ⟨pending, members, bound⟩ := covered
  refine ⟨pending.erase task, fun other member => ?_, ?_⟩
  · obtain ⟨different, member⟩ := Finset.mem_erase.mp member
    exact Pending.goto (members other member) different
  · have size := Finset.pred_card_le_card_erase (s := pending) (a := task)
    change sem.count - 1 ≤ ((pending.erase task).card : Int)
    omega

theorem Covered.increment (covered : sem.Covered) (idle : sem.stage task = .outside) :
    (sem.increment task).Covered := by
  obtain ⟨pending, members, bound⟩ := covered
  have absent : task ∉ pending := by
    intro member
    rcases members task member with posted | retrying
    · cases idle.symm.trans posted
    · cases idle.symm.trans retrying
  refine ⟨insert task pending, fun other member => ?_, ?_⟩
  · rcases Finset.mem_insert.mp member with rfl | member
    · exact .inl (goto_self _)
    · exact Pending.goto (members other member) (ne_of_mem_of_not_mem member absent)
  · rw [Finset.card_insert_of_notMem absent]
    change sem.count + 1 ≤ ((pending.card + 1 : Nat) : Int)
    omega

theorem Covered.wakeUp (covered : sem.Covered) (parked : Parked (· = .asleep) sem.stage sem.wait)
    (shape : sem.wait = first :: rest) (posted : sem.stage task = .posted) : (sem.wakeUp task).Covered := by
  obtain ⟨pending, members, bound⟩ := covered
  have sleeping : sem.stage first = .asleep := (parked.mem_iff first).mp (by simp [shape])
  have different : first ≠ task := by
    rintro rfl
    cases sleeping.symm.trans posted
  have absent : first ∉ pending.erase task := by
    intro member
    rcases members first (Finset.mem_of_mem_erase member) with posted | retrying
    · cases sleeping.symm.trans posted
    · cases sleeping.symm.trans retrying
  refine ⟨insert first (pending.erase task), fun other member => ?_, ?_⟩
  · rcases Finset.mem_insert.mp member with rfl | member
    · refine Pending.goto (.inr ?_) different
      simp [awaken, shape]
    · obtain ⟨notTask, member⟩ := Finset.mem_erase.mp member
      refine Pending.goto ?_ notTask
      have awake : sem.stage other ≠ .asleep := by
        rcases members other member with posted | retrying
        · simp [posted]
        · simp [retrying]
      have same : awaken (fun _ => SemStage.retrying) (sem.wait.take 1) sem.stage other =
          sem.stage other := parked.awaken_of_awake (take_subset 1 sem.wait) awake
      simp only [Pending, same]
      exact members other member
  · have size := Finset.pred_card_le_card_erase (s := pending) (a := task)
    rw [Finset.card_insert_of_notMem absent]
    change sem.count ≤ (((pending.erase task).card + 1 : Nat) : Int)
    omega

theorem Sound.test (sound : sem.Sound) (enabled : sem.stage task = .testing ∨ sem.stage task = .retrying) :
    (sem.test task).Sound := by
  have awake : sem.stage task ≠ .asleep := by
    rcases enabled with testing | retrying
    · simp [testing]
    · simp [retrying]
  rw [Semaphore.test]
  split
  · refine ⟨sound.parked.move awake (by simp), fun other asleep => ?_⟩
    have sleeping := asleep_of_goto (by simp) asleep
    exact (sound.covered other sleeping).take .outside
  · rename_i spent
    exact ⟨sound.parked.move awake (by simp), fun _ _ => .of_nonpos (by simpa using spent)⟩

theorem Sound.wakeUp (sound : sem.Sound) (posted : sem.stage task = .posted) : (sem.wakeUp task).Sound := by
  have woken : Parked (· = .asleep) (awaken (fun _ => SemStage.retrying) (sem.wait.take 1) sem.stage)
      (sem.wait.drop 1) := sound.parked.awaken (by simp) (take_append_drop 1 sem.wait).symm
  have awake : awaken (fun _ => SemStage.retrying) (sem.wait.take 1) sem.stage task ≠ .asleep := by
    rw [sound.parked.awaken_of_awake (take_subset 1 sem.wait) (by simp [posted]), posted]
    simp
  have parked : Parked (· = .asleep) (sem.wakeUp task).stage (sem.wakeUp task).wait :=
    woken.move awake (by simp)
  refine ⟨parked, fun other asleep => ?_⟩
  have member : other ∈ sem.wait := mem_of_mem_drop ((parked.mem_iff other).mpr asleep)
  obtain ⟨first, rest, shape⟩ := exists_cons_of_ne_nil (ne_nil_of_mem member)
  exact (sound.covered other ((sound.parked.mem_iff other).mp member)).wakeUp sound.parked shape posted

theorem Sound.step (sound : sem.Sound) (step : SemStep sem op after) (timely : op.Timely sem) : after.Sound := by
  obtain ⟨enabled, rfl⟩ := step
  cases op with
  | semWait task =>
    have outside : sem.stage task = .outside := enabled
    refine ⟨sound.parked.move (by simp [outside]) (by simp), fun other asleep => ?_⟩
    have sleeping := asleep_of_goto (by simp) asleep
    exact (sound.covered other sleeping).goto (by simp [Pending, outside])
  | test task => exact sound.test enabled
  | sleepOn task =>
    have leaving : sem.stage task = .leaving := enabled
    have covered : sem.Covered := timely
    exact ⟨sound.parked.park (by simp [leaving]) rfl,
      fun _ _ => Covered.goto covered (by simp [Pending, leaving])⟩
  | semPost task =>
    have outside : sem.stage task = .outside := enabled
    refine ⟨sound.parked.move (by simp [outside]) (by simp), fun other asleep => ?_⟩
    have sleeping := asleep_of_goto (by simp) asleep
    exact (sound.covered other sleeping).increment outside
  | wakeUp task => exact sound.wakeUp enabled

omit [DecidableEq Task] in
theorem Sound.not_lost (sound : sem.Sound) : ¬ sem.Lost := by
  intro lost
  obtain ⟨-, ⟨task, asleep⟩, -⟩ := id lost
  exact (sound.covered task asleep).not_lost lost

theorem lost_sleepOn_iff (leaving : sem.stage task = .leaving) :
    (sem.sleepOn task).Lost ↔ 0 < sem.count ∧ ∀ other, ¬ sem.Pending other := by
  have pending : ∀ other, (sem.sleepOn task).Pending other ↔ sem.Pending other := by
    intro other
    by_cases same : other = task
    · subst same
      simp [Pending, sleepOn, leaving]
    · simp [Pending, sleepOn, goto, same]
  simp only [Lost, pending]
  exact ⟨fun ⟨positive, _, nobody⟩ => ⟨positive, nobody⟩,
    fun ⟨positive, nobody⟩ => ⟨positive, ⟨task, goto_self _⟩, nobody⟩⟩

/-- As long as nobody falls asleep with more units available than tasks pending, no post is
lost.  A further step loses one only if it puts a task to sleep while units are available
and nobody is pending. -/
theorem timely_run_never_lost {count : Int} {trace : List (SemOp Task)}
    (run : Run (fun before op after => SemStep before op after ∧ op.Timely before)
      (semInit count) trace sem) :
    ¬ sem.Lost ∧ ∀ op after, SemStep sem op after →
      (after.Lost ↔ ∃ task, op = .sleepOn task ∧ 0 < sem.count ∧ ∀ other, ¬ sem.Pending other) := by
  have sound : sem.Sound := run.invariant (sound_semInit count)
    fun _ _ _ sound step => sound.step step.1 step.2
  refine ⟨sound.not_lost, fun op after step => ?_⟩
  cases op with
  | sleepOn task =>
    obtain ⟨leaving, rfl⟩ := step
    rw [SemOp.perform, lost_sleepOn_iff leaving]
    simp
  | semWait task | test task | semPost task | wakeUp task =>
    have next := sound.step step trivial
    simp [next.not_lost]

def sleepThenPost : List (SemOp (Fin 2)) :=
  [.semWait 0, .test 0, .sleepOn 0, .semPost 1, .wakeUp 1]

theorem timely_run_never_lost_post : ¬ (sleepThenPost.foldl SemOp.perform (semInit 0)).Lost := by
  have run : Run (fun before op after => SemStep before op after ∧ op.Timely before) (semInit 0)
      sleepThenPost (sleepThenPost.foldl SemOp.perform (semInit 0)) :=
    Run.of_performs ⟨⟨⟨rfl, rfl⟩, trivial⟩, ⟨⟨.inl rfl, rfl⟩, trivial⟩,
      ⟨⟨rfl, rfl⟩, .of_nonpos le_rfl⟩, ⟨⟨rfl, rfl⟩, trivial⟩, ⟨⟨rfl, rfl⟩, trivial⟩, trivial⟩
  exact (timely_run_never_lost run).1

def postThenSleep : List (SemOp (Fin 2)) :=
  [.semWait 0, .test 0, .semPost 1, .wakeUp 1, .sleepOn 0]

/-- The post comes between the failed test and `sleep_on`: its `wake_up` finds
an empty queue, and the task then sleeps with a unit available. -/
theorem post_before_sleep_lost :
    Run SemStep (semInit 0) postThenSleep (postThenSleep.foldl SemOp.perform (semInit 0)) ∧
      (postThenSleep.foldl SemOp.perform (semInit 0)).Lost :=
  ⟨Run.of_performs ⟨⟨rfl, rfl⟩, ⟨.inl rfl, rfl⟩, ⟨rfl, rfl⟩, ⟨rfl, rfl⟩, ⟨rfl, rfl⟩, trivial⟩,
    by decide, ⟨0, rfl⟩, by decide⟩

end Semaphore

end Rucix.Sync
