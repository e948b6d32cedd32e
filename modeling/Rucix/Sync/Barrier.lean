import Mathlib.Data.Fintype.Card
import Rucix.Data.Parking
import Rucix.Data.Run

namespace Rucix.Sync

open Rucix.Data Function Finset TwoTasks

/-! Barriers: `barrier_wait` of `kernel/sync/waitqueue.c`, called over and over by
as many tasks as the barrier counts.

The steps are the section under `barrier->lock` and the separate sections of `sleep_on`
and `wake_up_all`.
-/

/-- Where a task is: in `barrier_wait` before its section, behind it and before
`sleep_on` or `wake_up_all`, asleep, or about to return. -/
inductive BarrierStage where
  | outside
  | calling
  | arrived
  | asleep
  | releasing
  | returning
deriving DecidableEq, Repr

/-- A task and its history: the calls it has entered, those in which it has been
counted, and those it has returned from. -/
structure BarrierTask where
  stage : BarrierStage
  calls : Nat
  arrivals : Nat
  returns : Nat
deriving DecidableEq, Repr

structure Barrier (Task : Type*) where
  count : Int
  current : Int
  wait : List Task

/-- A barrier with its tasks and the number of times `wake_up_all` has been
done. -/
structure BarrierState (Task : Type*) extends Barrier Task where
  tasks : Task → BarrierTask
  released : Nat

inductive BarrierOp (Task : Type*) where
  | call (task : Task)
  | arrive (task : Task)
  | sleepOn (task : Task)
  | wakeUpAll (task : Task)
  | leave (task : Task)

variable {Task : Type*}

def barrierInit (count : Int) : Barrier Task where
  count := count
  current := 0
  wait := []

def BarrierState.initial (count : Int) : BarrierState Task where
  toBarrier := barrierInit count
  tasks := fun _ => { stage := .outside, calls := 0, arrivals := 0, returns := 0 }
  released := 0

namespace BarrierTask

def Asleep (task : BarrierTask) : Prop := task.stage = .asleep

def Waiting (task : BarrierTask) : Prop := task.stage = .arrived ∨ task.stage = .asleep

def goto (task : BarrierTask) (stage : BarrierStage) : BarrierTask := { task with stage }

def call (task : BarrierTask) : BarrierTask :=
  { task with stage := .calling, calls := task.calls + 1 }

def arrive (task : BarrierTask) (stage : BarrierStage) : BarrierTask :=
  { task with stage, arrivals := task.arrivals + 1 }

def leave (task : BarrierTask) : BarrierTask :=
  { task with stage := .outside, returns := task.returns + 1 }

end BarrierTask

namespace BarrierState

/-- Round `k` is complete: all tasks have arrived and the releaser has woken
the sleepers. -/
def Complete (state : BarrierState Task) (k : Nat) : Prop :=
  (∀ task, k ≤ (state.tasks task).arrivals) ∧ k ≤ state.released

/-- A task is blocked in its call of a round that is complete. -/
def Stuck (state : BarrierState Task) : Prop :=
  ∃ task, (state.tasks task).Asleep ∧ state.Complete (state.tasks task).calls

variable [DecidableEq Task]

def setTask (state : BarrierState Task) (task : Task) (value : BarrierTask) : BarrierState Task :=
  { state with tasks := update state.tasks task value }

/-- `barrier_wait` under `barrier->lock`. -/
def arrive (state : BarrierState Task) (task : Task) : BarrierState Task :=
  let current := state.current + 1
  if state.count ≤ current then
    { state with current := 0 }.setTask task ((state.tasks task).arrive .releasing)
  else { state with current }.setTask task ((state.tasks task).arrive .arrived)

/-- `sleep_on(&barrier->wait)` -/
def sleepOn (state : BarrierState Task) (task : Task) : BarrierState Task :=
  { state with wait := state.wait ++ [task] }.setTask task ((state.tasks task).goto .asleep)

/-- `wake_up_all(&barrier->wait)` -/
def wakeUpAll (state : BarrierState Task) (task : Task) : BarrierState Task :=
  { state with
    wait := []
    tasks := awaken (·.goto .returning) state.wait state.tasks
    released := state.released + 1 }.setTask task ((state.tasks task).goto .returning)

end BarrierState

namespace BarrierOp

def Enabled (state : BarrierState Task) : BarrierOp Task → Prop
  | .call task => (state.tasks task).stage = .outside
  | .arrive task => (state.tasks task).stage = .calling
  | .sleepOn task => (state.tasks task).stage = .arrived
  | .wakeUpAll task => (state.tasks task).stage = .releasing
  | .leave task => (state.tasks task).stage = .returning

def perform [DecidableEq Task] (state : BarrierState Task) : BarrierOp Task → BarrierState Task
  | .call task => state.setTask task (state.tasks task).call
  | .arrive task => state.arrive task
  | .sleepOn task => state.sleepOn task
  | .wakeUpAll task => state.wakeUpAll task
  | .leave task => state.setTask task (state.tasks task).leave

/-- A task falls asleep only before the `wake_up_all` of its round. -/
def Prompt (state : BarrierState Task) : BarrierOp Task → Prop
  | .sleepOn task => state.released < (state.tasks task).calls
  | _ => True

end BarrierOp

def BarrierStep [DecidableEq Task] (before : BarrierState Task) (op : BarrierOp Task)
    (after : BarrierState Task) : Prop :=
  op.Enabled before ∧ after = op.perform before

namespace BarrierTask

variable {task : BarrierTask}

def Tallied (task : BarrierTask) : Prop :=
  match task.stage with
  | .outside => task.calls = task.arrivals ∧ task.arrivals = task.returns
  | .calling => task.calls = task.arrivals + 1 ∧ task.arrivals = task.returns
  | .arrived | .asleep | .releasing | .returning =>
    task.calls = task.arrivals ∧ task.arrivals = task.returns + 1

variable (tallied : task.Tallied)
include tallied

theorem Tallied.call (outside : task.stage = .outside) : task.call.Tallied := by
  simp only [Tallied, outside] at tallied
  exact ⟨congrArg (· + 1) tallied.1, tallied.2⟩

theorem Tallied.leave (returning : task.stage = .returning) : task.leave.Tallied := by
  simp only [Tallied, returning] at tallied
  exact ⟨tallied.1, tallied.2⟩

/-- Both ways of leaving the section are inside the call. -/
theorem Tallied.arrive {stage : BarrierStage} (calling : task.stage = .calling)
    (inside : stage = .arrived ∨ stage = .releasing) : (task.arrive stage).Tallied := by
  simp only [Tallied, calling] at tallied
  rcases inside with rfl | rfl <;> exact ⟨tallied.1, congrArg (· + 1) tallied.2⟩

theorem Tallied.sleep (arrived : task.stage = .arrived) : (task.goto .asleep).Tallied := by
  simp only [Tallied, arrived] at tallied
  exact tallied

theorem Tallied.wake (waiting : task.Asleep ∨ task.stage = .releasing) : (task.goto .returning).Tallied := by
  rcases waiting with asleep | releasing
  · simp only [Tallied, show task.stage = .asleep from asleep] at tallied
    exact tallied
  · simp only [Tallied, releasing] at tallied
    exact tallied

theorem Tallied.bounds : task.returns ≤ task.arrivals ∧ task.arrivals ≤ task.calls ∧
    (task.Waiting → task.returns < task.arrivals) := by
  revert tallied
  cases stage : task.stage <;> simp [Tallied, Waiting, stage] <;> omega

end BarrierTask

namespace BarrierState

variable {state : BarrierState Task} {task other : Task} {round : Nat}

/-- While a round gathers, nobody releases; after the last arrival its task
releases and the others wait in `barrier_wait`. -/
inductive Phase (state : BarrierState Task) (round : Nat) : Prop where
  | gathering (released : state.released = round)
      (nobody : ∀ task, (state.tasks task).stage ≠ .releasing)
  | releasing (task : Task) (released : state.released + 1 = round)
      (stage : (state.tasks task).stage = .releasing)
      (even : ∀ task, (state.tasks task).arrivals = round)
      (waiting : ∀ other, other ≠ task → (state.tasks other).Waiting)

/-- After `round` full rounds every task has arrived in them, and those that
have arrived in the next one are waiting. -/
structure Rounds [Fintype Task] (state : BarrierState Task) (round : Nat) : Prop where
  count : state.count = Fintype.card Task
  least : ∀ task, round ≤ (state.tasks task).arrivals
  most : ∀ task, (state.tasks task).arrivals ≤ round + 1
  ahead : ∀ task, (state.tasks task).arrivals = round + 1 → (state.tasks task).Waiting
  current : state.current = (univ.filter fun task => (state.tasks task).arrivals = round + 1).card
  phase : state.Phase round

/-- Only waiting tasks and the releaser are there while a round is released. -/
theorem Phase.gathers (phase : state.Phase round) (busy : ¬ (state.tasks task).Waiting)
    (other : (state.tasks task).stage ≠ .releasing) :
    state.released = round ∧ ∀ task, (state.tasks task).stage ≠ .releasing := by
  cases phase with
  | gathering released nobody => exact ⟨released, nobody⟩
  | releasing releaser released stage even waiting =>
    by_cases same : task = releaser
    · exact absurd (same ▸ stage) other
    · exact absurd (waiting task same) busy

/-- The sleepers belong to the round that is still to be released. -/
def Punctual (state : BarrierState Task) : Prop :=
  ∀ task, (state.tasks task).Asleep → state.released < (state.tasks task).calls

theorem Punctual.not_stuck (punctual : state.Punctual) : ¬ state.Stuck := by
  rintro ⟨task, asleep, -, released⟩
  have late := punctual task asleep
  omega

section

variable [DecidableEq Task]

theorem forall_setTask (P : Task → BarrierTask → Prop) (new : P task value)
    (old : ∀ other, other ≠ task → P other (state.tasks other)) :
    ∀ other, P other ((state.setTask task value).tasks other) :=
  (forall_update_iff _ P).mpr ⟨new, old⟩

theorem forall_not_releasing (nobody : ∀ task, (state.tasks task).stage ≠ .releasing)
    (next : value.stage ≠ .releasing) : ∀ other, ((state.setTask task value).tasks other).stage ≠ .releasing :=
  forall_setTask (fun _ changed => changed.stage ≠ .releasing) next fun other _ => nobody other

theorem tallied_setTask (tallied : ∀ task, (state.tasks task).Tallied) (new : value.Tallied) (other : Task) :
    ((state.setTask task value).tasks other).Tallied :=
  forall_setTask (fun _ changed => changed.Tallied) new (fun other _ => tallied other) other

theorem Punctual.setTask (punctual : state.Punctual) (awake : ¬ value.Asleep) :
    (state.setTask task value).Punctual :=
  forall_setTask (fun _ changed => changed.Asleep → state.released < changed.calls)
    (fun asleep => absurd asleep awake) fun other _ => punctual other

end

variable [Fintype Task]

/-- No task has arrived in the next round. -/
theorem Rounds.of_even (count : state.count = Fintype.card Task) (current : state.current = 0)
    (even : ∀ task, (state.tasks task).arrivals = round) (phase : state.Phase round) : state.Rounds round := by
  refine ⟨count, fun task => (even task).ge, fun task => (even task).le.trans (Nat.le_succ _),
    fun task more => ?_, ?_, phase⟩
  · rw [even] at more
    omega
  · simp [even, current]

theorem rounds_initial : (initial (Fintype.card Task) : BarrierState Task).Rounds 0 :=
  .of_even rfl rfl (fun _ => rfl) (.gathering rfl fun _ => by simp [initial])

structure Sound (state : BarrierState Task) : Prop where
  tallied : ∀ task, (state.tasks task).Tallied
  rounds : ∃ round, state.Rounds round
  parked : Parked BarrierTask.Asleep state.tasks state.wait

structure Timed (state : BarrierState Task) : Prop where
  sound : state.Sound
  punctual : state.Punctual

theorem sound_initial : (initial (Fintype.card Task) : BarrierState Task).Sound :=
  ⟨fun _ => ⟨rfl, rfl⟩, ⟨0, rounds_initial⟩, .empty fun _ => by simp [BarrierTask.Asleep, initial]⟩

namespace Rounds

variable (rounds : state.Rounds round)
include rounds

theorem setWait (wait : List Task) : { state with wait }.Rounds round := by
  refine ⟨rounds.count, rounds.least, rounds.most, rounds.ahead, rounds.current, ?_⟩
  cases rounds.phase with
  | gathering released nobody => exact .gathering released nobody
  | releasing task released stage even waiting => exact .releasing task released stage even waiting

theorem arrivals_le (busy : ¬ (state.tasks task).Waiting) :
    (state.tasks task).arrivals = round := by
  have least := rounds.least task
  have most := rounds.most task
  have other : (state.tasks task).arrivals ≠ round + 1 := fun next => busy (rounds.ahead task next)
  omega

variable [DecidableEq Task]

theorem setTask (same : value.arrivals = (state.tasks task).arrivals)
    (ahead : value.arrivals = round + 1 → value.Waiting) (phase : (state.setTask task value).Phase round) :
    (state.setTask task value).Rounds round := by
  have arrivals : ∀ other, ((state.setTask task value).tasks other).arrivals = (state.tasks other).arrivals :=
    forall_setTask (fun other changed => changed.arrivals = (state.tasks other).arrivals) same fun _ _ => rfl
  refine ⟨rounds.count, fun other => arrivals other ▸ rounds.least other,
    fun other => arrivals other ▸ rounds.most other, ?_, ?_, phase⟩
  · exact forall_setTask (fun _ changed => changed.arrivals = round + 1 → changed.Waiting) ahead
      fun other _ => rounds.ahead other
  · simp only [arrivals]
    exact rounds.current

theorem move (busy : ¬ (state.tasks task).Waiting)
    (before : (state.tasks task).stage ≠ .releasing) (same : value.arrivals = (state.tasks task).arrivals)
    (next : value.stage ≠ .releasing) : (state.setTask task value).Rounds round := by
  obtain ⟨released, nobody⟩ := rounds.phase.gathers busy before
  have arrivals := rounds.arrivals_le busy
  exact rounds.setTask same (fun more => by omega) (.gathering released (forall_not_releasing nobody next))

theorem sleepOn (arrived : (state.tasks task).stage = .arrived) :
    (state.sleepOn task).Rounds round := by
  have asleep : ((state.tasks task).goto .asleep).Waiting := .inr rfl
  suffices moved : (state.setTask task ((state.tasks task).goto .asleep)).Rounds round from
    moved.setWait (state.wait ++ [task])
  refine rounds.setTask rfl (fun _ => asleep) ?_
  cases rounds.phase with
  | gathering released nobody =>
    exact .gathering released (forall_not_releasing nobody BarrierStage.noConfusion)
  | releasing releaser released stage even waiting =>
    have different : releaser ≠ task := by
      rintro rfl
      cases arrived.symm.trans stage
    refine .releasing releaser released ?_ ?_ ?_
    · exact (congrArg BarrierTask.stage (update_of_ne different _ _)).trans stage
    · exact forall_setTask (fun _ changed => changed.arrivals = round) (even task) fun other _ => even other
    · exact forall_setTask (fun other changed => other ≠ releaser → changed.Waiting) (fun _ => asleep)
        fun other _ => waiting other

/-- The last task to arrive finds the others waiting and opens the next round. -/
theorem arrive_last (released : state.released = round)
    (arrivals : (state.tasks task).arrivals = round)
    (all : ∀ other, other ≠ task → (state.tasks other).arrivals = round + 1) :
    ({ state with current := 0 }.setTask task ((state.tasks task).arrive .releasing)).Rounds
      (round + 1) := by
  have even : ∀ other, (({ state with current := 0 }.setTask task
      ((state.tasks task).arrive .releasing)).tasks other).arrivals = round + 1 :=
    forall_setTask (fun _ changed => changed.arrivals = round + 1) (congrArg (· + 1) arrivals) all
  refine .of_even rounds.count rfl even (.releasing task (congrArg (· + 1) released) ?_ even ?_)
  · simp [BarrierState.setTask, BarrierTask.arrive]
  · exact forall_setTask (fun other changed => other ≠ task → changed.Waiting) (absurd rfl)
      fun other here _ => rounds.ahead other (all other here)

theorem arrive_early (released : state.released = round)
    (nobody : ∀ task, (state.tasks task).stage ≠ .releasing) (arrivals : (state.tasks task).arrivals = round) :
    ({ state with current := state.current + 1 }.setTask task
      ((state.tasks task).arrive .arrived)).Rounds round := by
  have absent : task ∉ univ.filter fun other => (state.tasks other).arrivals = round + 1 := by
    simp [arrivals]
  have members : (univ.filter fun other => (({ state with current := state.current + 1 }.setTask
      task ((state.tasks task).arrive .arrived)).tasks other).arrivals = round + 1) =
      insert task (univ.filter fun other => (state.tasks other).arrivals = round + 1) := by
    ext other
    rw [mem_filter]
    by_cases here : other = task
    · subst here
      simp [BarrierState.setTask, BarrierTask.arrive, arrivals]
    · simp [BarrierState.setTask, here]
  refine ⟨rounds.count, ?_, ?_, ?_, ?_, .gathering released (forall_not_releasing nobody BarrierStage.noConfusion)⟩
  · exact forall_setTask (fun _ changed => round ≤ changed.arrivals) (arrivals.ge.trans (Nat.le_succ _))
      fun other _ => rounds.least other
  · exact forall_setTask (fun _ changed => changed.arrivals ≤ round + 1) (congrArg (· + 1) arrivals).le
      fun other _ => rounds.most other
  · exact forall_setTask (fun _ changed => changed.arrivals = round + 1 → changed.Waiting) (fun _ => .inl rfl)
      fun other _ => rounds.ahead other
  · rw [members, card_insert_of_notMem absent]
    have current := rounds.current
    rw [current]
    rfl

theorem arrive (calling : (state.tasks task).stage = .calling) :
    ∃ round, (state.arrive task).Rounds round := by
  have busy : ¬ (state.tasks task).Waiting := by simp [BarrierTask.Waiting, calling]
  obtain ⟨released, nobody⟩ := rounds.phase.gathers busy (by simp [calling])
  have arrivals := rounds.arrivals_le busy
  simp only [BarrierState.arrive]
  split
  · rename_i last
    refine ⟨round + 1, rounds.arrive_last released arrivals fun other different => ?_⟩
    rw [rounds.count, rounds.current] at last
    let next := univ.filter fun other => (state.tasks other).arrivals = round + 1
    have bound : (Fintype.card Task : Int) ≤ next.card + 1 := last
    have absent : task ∉ next := by simp [next, arrivals]
    have size := card_insert_of_notMem absent
    have full : insert task next = univ := eq_univ_of_card _
      (le_antisymm (card_le_univ _) (by omega))
    have member : other ∈ insert task next := full ▸ mem_univ other
    simpa [different, next] using member
  · exact ⟨round, rounds.arrive_early released nobody arrivals⟩

theorem wakeUpAll (releasing : (state.tasks task).stage = .releasing) :
    (state.wakeUpAll task).Rounds round := by
  cases rounds.phase with
  | gathering released nobody => exact absurd releasing (nobody task)
  | releasing releaser released stage even waiting =>
    have same : task = releaser := by
      by_contra different
      rcases waiting task different with arrived | asleep
      · cases releasing.symm.trans arrived
      · cases releasing.symm.trans asleep
    subst same
    have arrivals : ∀ other, ((state.wakeUpAll task).tasks other).arrivals = round := by
      refine forall_setTask (fun _ changed => changed.arrivals = round) (even task) fun other _ => ?_
      simp only [awaken]
      split <;> exact even other
    refine .of_even rounds.count (rounds.current.trans (by simp [even])) arrivals (.gathering released ?_)
    refine forall_setTask (fun _ changed => changed.stage ≠ .releasing) BarrierStage.noConfusion fun other here => ?_
    simp only [awaken]
    split
    · exact BarrierStage.noConfusion
    · rcases waiting other here with stage | stage <;> simp [stage]

end Rounds

namespace Sound

variable (sound : state.Sound)
include sound

/-- Nobody has returned from a call that another task has not entered. -/
theorem returns_le_calls (task other : Task) : (state.tasks task).returns ≤ (state.tasks other).calls := by
  obtain ⟨round, rounds⟩ := sound.rounds
  obtain ⟨returned, -, earlier⟩ := (sound.tallied task).bounds
  obtain ⟨-, entered, -⟩ := (sound.tallied other).bounds
  have least := rounds.least other
  by_cases waiting : (state.tasks task).Waiting
  · have returned := earlier waiting
    have most := rounds.most task
    omega
  · have arrivals := rounds.arrivals_le waiting
    omega

variable [DecidableEq Task]

theorem move (busy : ¬ (state.tasks task).Waiting) (before : (state.tasks task).stage ≠ .releasing)
    (tallied : value.Tallied) (same : value.arrivals = (state.tasks task).arrivals) (next : value.stage ≠ .releasing)
    (awake : ¬ value.Asleep) : (state.setTask task value).Sound := by
  obtain ⟨round, rounds⟩ := sound.rounds
  exact ⟨tallied_setTask sound.tallied tallied, ⟨round, rounds.move busy before same next⟩,
    sound.parked.move (fun asleep => busy (.inr asleep)) awake⟩

theorem arrive (calling : (state.tasks task).stage = .calling) : (state.arrive task).Sound := by
  obtain ⟨round, rounds⟩ := sound.rounds
  have next := rounds.arrive calling
  have awake : ¬ (state.tasks task).Asleep := by simp [BarrierTask.Asleep, calling]
  have tallied := sound.tallied task
  simp only [BarrierState.arrive] at next ⊢
  split at next
  · rename_i last
    rw [if_pos last]
    exact ⟨tallied_setTask sound.tallied (tallied.arrive calling (.inr rfl)), next,
      sound.parked.move awake BarrierStage.noConfusion⟩
  · rename_i early
    rw [if_neg early]
    exact ⟨tallied_setTask sound.tallied (tallied.arrive calling (.inl rfl)), next,
      sound.parked.move awake BarrierStage.noConfusion⟩

theorem sleepOn (arrived : (state.tasks task).stage = .arrived) : (state.sleepOn task).Sound := by
  obtain ⟨round, rounds⟩ := sound.rounds
  exact ⟨tallied_setTask sound.tallied ((sound.tallied task).sleep arrived),
    ⟨round, rounds.sleepOn arrived⟩,
    sound.parked.park (by simp [BarrierTask.Asleep, arrived]) rfl⟩

theorem wakeUpAll (releasing : (state.tasks task).stage = .releasing) : (state.wakeUpAll task).Sound := by
  obtain ⟨round, rounds⟩ := sound.rounds
  have awake : ¬ (state.tasks task).Asleep := by simp [BarrierTask.Asleep, releasing]
  have woken : Parked BarrierTask.Asleep (awaken (·.goto .returning) state.wait state.tasks) [] :=
    sound.parked.awaken (fun _ _ => BarrierStage.noConfusion) (List.append_nil _).symm
  have same : awaken (·.goto .returning) state.wait state.tasks task = state.tasks task :=
    sound.parked.awaken_of_awake (List.Subset.refl _) awake
  refine ⟨tallied_setTask (fun other => ?_) ((sound.tallied task).wake (.inr releasing)),
    ⟨round, rounds.wakeUpAll releasing⟩, woken.move (by rwa [same]) BarrierStage.noConfusion⟩
  simp only [awaken]
  split
  · rename_i member
    exact (sound.tallied other).wake (.inl ((sound.parked.mem_iff other).mp member))
  · exact sound.tallied other

theorem step (step : BarrierStep state op after) : after.Sound := by
  obtain ⟨enabled, rfl⟩ := step
  cases op with
  | call task =>
    have outside : (state.tasks task).stage = .outside := enabled
    exact sound.move (by simp [BarrierTask.Waiting, outside]) (by simp [outside])
      ((sound.tallied task).call outside) rfl BarrierStage.noConfusion BarrierStage.noConfusion
  | arrive task => exact sound.arrive enabled
  | sleepOn task => exact sound.sleepOn enabled
  | wakeUpAll task => exact sound.wakeUpAll enabled
  | leave task =>
    have returning : (state.tasks task).stage = .returning := enabled
    exact sound.move (by simp [BarrierTask.Waiting, returning]) (by simp [returning])
      ((sound.tallied task).leave returning) rfl BarrierStage.noConfusion BarrierStage.noConfusion

/-- A task that falls asleep after its round has been released is stuck. -/
theorem stuck_of_late (arrived : (state.tasks task).stage = .arrived)
    (late : (state.tasks task).calls ≤ state.released) : (state.sleepOn task).Stuck := by
  have self : (state.sleepOn task).tasks task = (state.tasks task).goto .asleep := update_self ..
  refine ⟨task, by rw [self]; rfl, ?_⟩
  rw [self]
  refine ⟨fun other => ?_, late⟩
  obtain ⟨round, rounds⟩ := (sound.sleepOn arrived).rounds
  have least := rounds.least other
  have bound : state.released ≤ round := by
    cases rounds.phase with
    | gathering released _ => exact released.le
    | releasing _ released _ _ _ => exact (Nat.le_succ _).trans released.le
  exact (late.trans bound).trans least

end Sound

variable [DecidableEq Task]

theorem Punctual.step (punctual : state.Punctual) (sound : state.Sound) (step : BarrierStep state op after)
    (prompt : op.Prompt state) : after.Punctual := by
  have next := sound.step step
  obtain ⟨enabled, rfl⟩ := step
  cases op with
  | call task | leave task => exact punctual.setTask BarrierStage.noConfusion
  | arrive task =>
    simp only [BarrierOp.perform, BarrierState.arrive]
    split <;> exact Punctual.setTask punctual BarrierStage.noConfusion
  | sleepOn task =>
    exact forall_setTask (fun _ changed => changed.Asleep → state.released < changed.calls) (fun _ => prompt)
      fun other _ => punctual other
  | wakeUpAll task =>
    -- The queue is empty afterwards, so nobody is asleep.
    intro other asleep
    have member := (next.parked.mem_iff other).mpr asleep
    exact absurd member List.not_mem_nil

theorem Timed.step (timed : state.Timed) (step : BarrierStep state op after) (prompt : op.Prompt state) :
    after.Timed :=
  ⟨timed.sound.step step, timed.punctual.step timed.sound step prompt⟩

end BarrierState

section

variable [Fintype Task] [DecidableEq Task] {state : BarrierState Task}

/-- In every run, nobody returns from a round that another task has not
entered. -/
theorem barrier_run_waits_for_all (run : Run BarrierStep (.initial (Fintype.card Task)) trace state)
    (task other : Task) : (state.tasks task).returns ≤ (state.tasks other).calls := by
  have sound : state.Sound := run.invariant BarrierState.sound_initial
    fun _ _ _ sound step => sound.step step
  exact sound.returns_le_calls task other

/-- As long as nobody falls asleep after the `wake_up_all` of its round, no task is blocked
in a round that is complete; and a further step leaves one there exactly if it puts a task
to sleep too late. -/
theorem prompt_run_rounds (run : Run (fun before op after => BarrierStep before op after ∧ op.Prompt before)
      (.initial (Fintype.card Task)) trace state) :
    (∀ task other, (state.tasks task).returns ≤ (state.tasks other).calls) ∧ ¬ state.Stuck ∧
      ∀ op after, BarrierStep state op after → (after.Stuck ↔ ¬ op.Prompt state) := by
  have timed : state.Timed := run.invariant ⟨BarrierState.sound_initial, fun _ asleep => by cases asleep⟩
    fun _ _ _ timed step => timed.step step.1 step.2
  obtain ⟨sound, punctual⟩ := timed
  refine ⟨sound.returns_le_calls, punctual.not_stuck, fun op after step => ?_⟩
  constructor
  · intro stuck prompt
    exact (punctual.step sound step prompt).not_stuck stuck
  · intro late
    obtain ⟨enabled, rfl⟩ := step
    cases op with
    | sleepOn task => exact sound.stuck_of_late enabled (Nat.le_of_not_lt late)
    | call task | arrive task | wakeUpAll task | leave task => exact absurd trivial late

def sleepInTime : List (BarrierOp (Fin 2)) :=
  [.call 0, .arrive 0, .sleepOn 0, .call 1, .arrive 1, .wakeUpAll 1, .leave 0, .leave 1]

theorem prompt_run_rounds_two_tasks : ¬ (sleepInTime.foldl BarrierOp.perform (.initial 2)).Stuck := by
  have run : Run (fun before op after => BarrierStep before op after ∧ op.Prompt before)
      (.initial (Fintype.card (Fin 2))) sleepInTime
      (sleepInTime.foldl BarrierOp.perform (.initial (Fintype.card (Fin 2)))) :=
    Run.of_performs ⟨⟨⟨rfl, rfl⟩, trivial⟩, ⟨⟨rfl, rfl⟩, trivial⟩, ⟨⟨rfl, rfl⟩, Nat.zero_lt_one⟩,
      ⟨⟨rfl, rfl⟩, trivial⟩, ⟨⟨rfl, rfl⟩, trivial⟩, ⟨⟨rfl, rfl⟩, trivial⟩, ⟨⟨rfl, rfl⟩, trivial⟩,
      ⟨⟨rfl, rfl⟩, trivial⟩, trivial⟩
  exact (prompt_run_rounds run).2.1

def sleepTooLate : List (BarrierOp (Fin 2)) :=
  [.call 0, .arrive 0, .call 1, .arrive 1, .wakeUpAll 1, .sleepOn 0]

theorem barrier_run_waits_for_all_late :
    ((sleepTooLate.foldl BarrierOp.perform (.initial 2)).tasks 1).returns ≤
      ((sleepTooLate.foldl BarrierOp.perform (.initial 2)).tasks 0).calls := by
  refine barrier_run_waits_for_all (Run.of_performs ?_) 1 0
  exact ⟨⟨rfl, rfl⟩, ⟨rfl, rfl⟩, ⟨rfl, rfl⟩, ⟨rfl, rfl⟩, ⟨rfl, rfl⟩, ⟨rfl, rfl⟩, trivial⟩

/-- The second task releases the round between the arrival of the first and its
`sleep_on`. -/
theorem late_sleeper_stuck :
    Run BarrierStep (.initial 2) sleepTooLate (sleepTooLate.foldl BarrierOp.perform (.initial 2)) ∧
      (sleepTooLate.foldl BarrierOp.perform (.initial 2)).Stuck :=
  ⟨Run.of_performs ⟨⟨rfl, rfl⟩, ⟨rfl, rfl⟩, ⟨rfl, rfl⟩, ⟨rfl, rfl⟩, ⟨rfl, rfl⟩, ⟨rfl, rfl⟩, trivial⟩,
    0, rfl, by decide, by decide⟩

end

end Rucix.Sync
