import Rucix.Ipc.Msg.Queue
import Rucix.Sync.Mutex

namespace Rucix.Ipc

open Rucix.Data Rucix.Sync Function List TwoTasks

/-! Senders and receivers of one message queue, with the mutex `q->lock` and the
condition variable `q->cond_recv`.

The steps are the sections under the spin locks of the mutex and of the two wait
queues, and the work on the queue, which only the owner of the mutex does.
-/

inductive MsgCall where
  | msgsnd (type : Int) (text : List UInt8)
  | msgrcv (msgtyp : Int) (msgsz : Nat)
deriving DecidableEq, Repr

/-- `sys_msgsnd` turns longer messages away before it takes the mutex. -/
def MsgCall.Fits : MsgCall → Prop
  | .msgsnd _ text => text.length ≤ msgSize
  | .msgrcv _ _ => True

/-- Where a task is: outside; in `mutex_lock` before its section, behind one that found
another owner, or asleep; at work as the owner; in `cond_broadcast` for the entry it has
linked; in `mutex_unlock`, which ends the call or belongs to a `cond_wait`, before its
section or its `wake_up`; or in `cond_wait` before `sleep_on`, or asleep there. -/
inductive MsgStage where
  | outside
  | locking (call : MsgCall)
  | leaving (call : MsgCall)
  | waiting (call : MsgCall)
  | working (call : MsgCall)
  | broadcasting (address : Nat)
  | unlocking (retry : Option (Int × Nat))
  | waking (retry : Option (Int × Nat))
  | condLeaving (msgtyp : Int) (msgsz : Nat)
  | condAsleep (msgtyp : Int) (msgsz : Nat)
deriving DecidableEq, Repr

namespace MsgStage

def unlocked : Option (Int × Nat) → MsgStage
  | none => .outside
  | some (msgtyp, msgsz) => .condLeaving msgtyp msgsz

def locked (call : MsgCall) : LockResult → MsgStage
  | .acquired | .relocked => .working call
  | .refused => .leaving call

def released (retry : Option (Int × Nat)) : UnlockResult → MsgStage
  | .released => .waking retry
  | .kept | .ignored => unlocked retry

def sent : Option (Nat × Block) → MsgStage
  | some (address, _) => .broadcasting address
  | none => .unlocking none

def relock : MsgStage → MsgStage
  | .waiting call => .locking call
  | stage => stage

def rejoin : MsgStage → MsgStage
  | .condAsleep msgtyp msgsz => .locking (.msgrcv msgtyp msgsz)
  | stage => stage

def CondAsleep (stage : MsgStage) : Prop := ∃ msgtyp msgsz, stage = .condAsleep msgtyp msgsz

def Owning : MsgStage → Prop
  | .working _ | .broadcasting _ | .unlocking _ => True
  | _ => False

end MsgStage

structure MsgSystem (Task : Type*) where
  mutex : Mutex Task
  priority : Task → Int
  condRecv : List Task
  queue : MsgQueue
  stage : Task → MsgStage

variable {Task : Type*}

def MsgSystem.initial (priority : Task → Int) (entries : Nat → MsgEntry) : MsgSystem Task where
  mutex := mutexInit
  priority := priority
  condRecv := []
  queue := .create entries
  stage := fun _ => .outside

inductive MsgSystemOp (Task : Type*) where
  | call (task : Task) (call : MsgCall)
  | lock (task : Task)
  | sleepOnLock (task : Task)
  | msgsnd (task : Task) (memory : Option (Nat × Block))
  | broadcast (task : Task)
  | msgrcv (task : Task)
  | unlock (task : Task)
  | wakeUp (task : Task)
  | condSleep (task : Task)

namespace MsgSystem

variable [DecidableEq Task]

def goto (system : MsgSystem Task) (task : Task) (stage : MsgStage) : MsgSystem Task :=
  { system with stage := update system.stage task stage }

def lock (system : MsgSystem Task) (task : Task) (call : MsgCall) : MsgSystem Task :=
  let (mutex, result) := system.mutex.lock task
  { system with mutex, priority := system.mutex.boostOwner system.priority task }.goto task
    (.locked call result)

def sleepOnLock (system : MsgSystem Task) (task : Task) (call : MsgCall) : MsgSystem Task :=
  { system with mutex := { system.mutex with wait := system.mutex.wait ++ [task] } }.goto task
    (.waiting call)

def msgsnd (system : MsgSystem Task) (task : Task) (type : Int) (text : List UInt8)
    (memory : Option (Nat × Block)) : MsgSystem Task :=
  { system with queue := (system.queue.sysMsgsnd type text memory).2 }.goto task (.sent memory)

/-- `wake_up_all(&cond->wait)` -/
def broadcast (system : MsgSystem Task) (task : Task) : MsgSystem Task :=
  { system with
    condRecv := []
    stage := awaken MsgStage.rejoin system.condRecv system.stage }.goto task (.unlocking none)

/-- A receive that found nothing calls `cond_wait`. -/
def received (system : MsgSystem Task) (task : Task) (msgtyp : Int) (msgsz : Nat)
    (result : Option Delivery) (queue : MsgQueue) : MsgSystem Task :=
  { system with queue }.goto task (.unlocking (if result = none then some (msgtyp, msgsz) else none))

def unlock (system : MsgSystem Task) (task : Task) (retry : Option (Int × Nat)) : MsgSystem Task :=
  let (mutex, result) := system.mutex.unlock task
  { system with mutex }.goto task (.released retry result)

def wakeUp (system : MsgSystem Task) (task : Task) (retry : Option (Int × Nat)) : MsgSystem Task :=
  { system with
    mutex := { system.mutex with wait := system.mutex.wait.drop 1 }
    stage := awaken MsgStage.relock (system.mutex.wait.take 1) system.stage }.goto task (.unlocked retry)

/-- `sleep_on(&cond->wait)` -/
def condSleep (system : MsgSystem Task) (task : Task) (msgtyp : Int) (msgsz : Nat) : MsgSystem Task :=
  { system with condRecv := system.condRecv ++ [task] }.goto task (.condAsleep msgtyp msgsz)

end MsgSystem

inductive MsgSystemStep [DecidableEq Task] :
    MsgSystem Task → MsgSystemOp Task → MsgSystem Task → Prop where
  | call {system task call} (outside : system.stage task = .outside) (fits : call.Fits) :
      MsgSystemStep system (.call task call) (system.goto task (.locking call))
  | lock {system task call} (locking : system.stage task = .locking call) :
      MsgSystemStep system (.lock task) (system.lock task call)
  | sleepOnLock {system task call} (leaving : system.stage task = .leaving call) :
      MsgSystemStep system (.sleepOnLock task) (system.sleepOnLock task call)
  | msgsnd {system task type text memory} (working : system.stage task = .working (.msgsnd type text))
      (fresh : ∀ address garbage, memory = some (address, garbage) →
        system.queue.allocated address = false) :
      MsgSystemStep system (.msgsnd task memory) (system.msgsnd task type text memory)
  | broadcast {system task address} (broadcasting : system.stage task = .broadcasting address) :
      MsgSystemStep system (.broadcast task) (system.broadcast task)
  | msgrcv {system task msgtyp msgsz fuel result queue}
      (working : system.stage task = .working (.msgrcv msgtyp msgsz))
      (done : system.queue.sysMsgrcv fuel msgtyp msgsz = some (result, queue)) :
      MsgSystemStep system (.msgrcv task) (system.received task msgtyp msgsz result queue)
  | unlock {system task retry} (unlocking : system.stage task = .unlocking retry) :
      MsgSystemStep system (.unlock task) (system.unlock task retry)
  | wakeUp {system task retry} (waking : system.stage task = .waking retry) :
      MsgSystemStep system (.wakeUp task) (system.wakeUp task retry)
  | condSleep {system task msgtyp msgsz} (leaving : system.stage task = .condLeaving msgtyp msgsz) :
      MsgSystemStep system (.condSleep task) (system.condSleep task msgtyp msgsz)

def MsgQueue.Queued (queue : MsgQueue) (address : Nat) : Prop :=
  ∃ addresses, Linked queue.next queue.head addresses none ∧ address ∈ addresses

theorem MsgQueue.Chained.queued_iff {queue : MsgQueue} {addresses : List Nat} {address : Nat}
    (chained : queue.Chained addresses) : queue.Queued address ↔ address ∈ addresses := by
  constructor
  · rintro ⟨others, linked, member⟩
    rwa [linked.unique chained.linked] at member
  · intro member
    exact ⟨addresses, chained.linked, member⟩

namespace MsgSystem

/-- A message is queued that a receiver for `msgtyp` accepts, and its sender has
finished `cond_broadcast`. -/
def Announced (system : MsgSystem Task) (msgtyp : Int) : Prop :=
  ∃ address, system.queue.Queued address ∧
    MsgQueue.Accepts msgtyp (system.queue.message address).type = true ∧
    ∀ sender, system.stage sender ≠ .broadcasting address

def Starved (system : MsgSystem Task) : Prop :=
  ∃ task msgtyp msgsz, system.stage task = .condAsleep msgtyp msgsz ∧ system.Announced msgtyp

end MsgSystem

/-- A receiver falls asleep in `cond_wait` only while no message it accepts has
been announced. -/
def MsgSystemOp.Timely (system : MsgSystem Task) : MsgSystemOp Task → Prop
  | .condSleep task => ∀ msgtyp msgsz, system.stage task = .condLeaving msgtyp msgsz →
      ¬ system.Announced msgtyp
  | _ => True

namespace MsgStage

variable {stage : MsgStage}

def Quiet : MsgStage → Prop
  | .broadcasting _ | .condAsleep _ _ => False
  | _ => True

theorem not_condAsleep_rejoin (asleep : stage.CondAsleep) : ¬ stage.rejoin.CondAsleep := by
  obtain ⟨msgtyp, msgsz, rfl⟩ := asleep
  rintro ⟨_, _, other⟩
  cases other

theorem not_condAsleep_unlocked : ¬ (unlocked retry).CondAsleep := by
  rintro ⟨msgtyp, msgsz, asleep⟩
  cases retry <;> cases asleep

end MsgStage

namespace MsgSystem

variable [DecidableEq Task] {system after : MsgSystem Task} {task : Task} {op : MsgSystemOp Task}
  {next : MsgStage}

structure Calm (system after : MsgSystem Task) : Prop where
  asleep : ∀ task msgtyp msgsz, after.stage task = .condAsleep msgtyp msgsz →
    system.stage task = .condAsleep msgtyp msgsz
  announced : ∀ msgtyp, after.Announced msgtyp → system.Announced msgtyp

omit [DecidableEq Task] in
theorem Calm.not_starved (calm : Calm system after) (fed : ¬ system.Starved) : ¬ after.Starved := by
  rintro ⟨task, msgtyp, msgsz, asleep, announced⟩
  exact fed ⟨task, msgtyp, msgsz, calm.asleep task msgtyp msgsz asleep, calm.announced msgtyp announced⟩

structure Moves (system after : MsgSystem Task) (task : Task) (next : MsgStage) : Prop where
  stage : after.stage = update system.stage task next
  condRecv : after.condRecv = system.condRecv

/-- The list of the queue is in order, and the receivers asleep are those in the
queue of `cond_recv`. -/
structure Sound (system : MsgSystem Task) : Prop where
  chained : ∃ addresses, system.queue.Chained addresses
  parked : Parked MsgStage.CondAsleep system.stage system.condRecv

omit [DecidableEq Task] in
theorem sound_initial (priority : Task → Int) : (initial priority entries).Sound := by
  refine ⟨⟨[], MsgQueue.chained_create entries⟩, .empty ?_⟩
  rintro task ⟨msgtyp, msgsz, asleep⟩
  cases asleep

section

variable (moves : Moves system after task next) (sound : system.Sound) (quiet : (system.stage task).Quiet)
  (awake : ¬ next.CondAsleep)
include moves sound quiet awake

/-- Every message then in the queue was there before, or `task` is about to announce it. -/
theorem Moves.keeps (chained : after.queue.Chained addresses)
    (queued : ∀ address ∈ addresses, after.stage task = .broadcasting address ∨
      system.queue.Queued address ∧ after.queue.message address = system.queue.message address) :
    after.Sound ∧ Calm system after := by
  refine ⟨⟨⟨_, chained⟩, ?_⟩, fun other msgtyp msgsz asleep => ?_, fun msgtyp announced => ?_⟩
  · rw [moves.stage, moves.condRecv]
    refine sound.parked.move ?_ awake
    rintro ⟨msgtyp, msgsz, asleep⟩
    rwa [asleep] at quiet
  · rw [moves.stage] at asleep
    by_cases same : other = task
    · subst same
      rw [update_self] at asleep
      exact absurd ⟨msgtyp, msgsz, asleep⟩ awake
    · rwa [update_of_ne same] at asleep
  · obtain ⟨address, member, accepted, finished⟩ := announced
    rcases queued address (chained.queued_iff.mp member) with busy | ⟨old, same⟩
    · exact absurd busy (finished task)
    · refine ⟨address, old, by rwa [← same], fun sender busy => finished sender ?_⟩
      have different : sender ≠ task := by
        rintro rfl
        rwa [busy] at quiet
      rw [moves.stage, update_of_ne different, busy]

theorem Moves.keeps_queue (queue : after.queue = system.queue) :
    after.Sound ∧ Calm system after := by
  obtain ⟨addresses, chained⟩ := sound.chained
  exact moves.keeps sound quiet awake (queue ▸ chained) fun address listed =>
    .inr ⟨chained.queued_iff.mpr listed, by rw [queue]⟩

end

section

variable (sound : system.Sound)
include sound

theorem lock_keeps (locking : system.stage task = .locking call) :
    (system.lock task call).Sound ∧ Calm system (system.lock task call) := by
  have awake : ¬ (MsgStage.locked call (system.mutex.lock task).2).CondAsleep := by
    rintro ⟨msgtyp, msgsz, asleep⟩
    cases result : (system.mutex.lock task).2 <;> rw [result] at asleep <;> cases asleep
  exact Moves.keeps_queue ⟨rfl, rfl⟩ sound (by rw [locking]; trivial) awake rfl

theorem unlock_keeps (unlocking : system.stage task = .unlocking retry) :
    (system.unlock task retry).Sound ∧ Calm system (system.unlock task retry) := by
  have awake : ¬ (MsgStage.released retry (system.mutex.unlock task).2).CondAsleep := by
    cases (system.mutex.unlock task).2 with
    | released =>
      rintro ⟨msgtyp, msgsz, asleep⟩
      cases asleep
    | kept | ignored => exact MsgStage.not_condAsleep_unlocked
  exact Moves.keeps_queue ⟨rfl, rfl⟩ sound (by rw [unlocking]; trivial) awake rfl

theorem msgsnd_keeps {type : Int} {text : List UInt8} {memory : Option (Nat × Block)}
    (working : system.stage task = .working (.msgsnd type text))
    (fresh : ∀ address garbage, memory = some (address, garbage) →
      system.queue.allocated address = false) :
    (system.msgsnd task type text memory).Sound ∧
      Calm system (system.msgsnd task type text memory) := by
  obtain ⟨addresses, chained⟩ := sound.chained
  have quiet : (system.stage task).Quiet := by rw [working]; trivial
  have moves : Moves system (system.msgsnd task type text memory) task (.sent memory) := ⟨rfl, rfl⟩
  have awake : ¬ (MsgStage.sent memory).CondAsleep := by
    rintro ⟨msgtyp, msgsz, asleep⟩
    cases memory <;> cases asleep
  have done : system.queue.sysMsgsnd type text memory =
      ((system.queue.sysMsgsnd type text memory).1, (system.msgsnd task type text memory).queue) := rfl
  rcases chained.sysMsgsnd fresh done with ⟨-, -, same⟩ |
    ⟨address, garbage, rfl, -, -, -, longer, -, others⟩
  · exact moves.keeps_queue sound quiet awake same
  · refine moves.keeps sound quiet awake longer fun other member => ?_
    by_cases here : other = address
    · rw [moves.stage, update_self, here]
      exact .inl rfl
    · have old := (mem_append.mp member).resolve_right fun new => here (mem_singleton.mp new)
      exact .inr ⟨chained.queued_iff.mpr old, others other here⟩

theorem received_keeps {msgtyp : Int} {msgsz fuel : Nat} {result : Option Delivery} {queue : MsgQueue}
    (working : system.stage task = .working (.msgrcv msgtyp msgsz))
    (done : system.queue.sysMsgrcv fuel msgtyp msgsz = some (result, queue)) :
    (system.received task msgtyp msgsz result queue).Sound ∧
      Calm system (system.received task msgtyp msgsz result queue) := by
  obtain ⟨addresses, chained⟩ := sound.chained
  have quiet : (system.stage task).Quiet := by rw [working]; trivial
  have moves : Moves system (system.received task msgtyp msgsz result queue) task
      (.unlocking (if result = none then some (msgtyp, msgsz) else none)) := ⟨rfl, rfl⟩
  have awake : ¬ (MsgStage.unlocking (if result = none then some (msgtyp, msgsz) else none)).CondAsleep := by
    rintro ⟨msgtyp, msgsz, asleep⟩
    cases asleep
  rcases chained.sysMsgrcv done with ⟨-, -, same⟩ |
    ⟨front, address, behind, shape, -, -, -, shorter, messages⟩
  · exact moves.keeps_queue sound quiet awake same
  · refine moves.keeps sound quiet awake shorter fun other member => .inr ⟨chained.queued_iff.mpr ?_,
      congrFun messages other⟩
    rw [shape, mem_append, mem_cons]
    exact (mem_append.mp member).imp_right .inr

theorem wakeUp_keeps (waking : system.stage task = .waking retry) :
    (system.wakeUp task retry).Sound ∧ Calm system (system.wakeUp task retry) := by
  let woken : MsgSystem Task := { system with
    stage := awaken MsgStage.relock (system.mutex.wait.take 1) system.stage }
  have asleep : ∀ other msgtyp msgsz, woken.stage other = .condAsleep msgtyp msgsz ↔
      system.stage other = .condAsleep msgtyp msgsz := by
    intro other msgtyp msgsz
    refine awaken_iff (P := (· = MsgStage.condAsleep msgtyp msgsz)) fun stage => ?_
    cases stage <;> simp [MsgStage.relock]
  have senders : ∀ other address, woken.stage other = .broadcasting address ↔
      system.stage other = .broadcasting address := by
    intro other address
    refine awaken_iff (P := (· = MsgStage.broadcasting address)) fun stage => ?_
    cases stage <;> simp [MsgStage.relock]
  have soundWoken : woken.Sound := by
    refine ⟨sound.chained, sound.parked.nodup, fun other => ?_⟩
    rw [sound.parked.mem_iff]
    simp only [MsgStage.CondAsleep, asleep]
  have moves : Moves woken (system.wakeUp task retry) task (.unlocked retry) := ⟨rfl, rfl⟩
  have quiet : (woken.stage task).Quiet := by
    refine (awaken_iff fun stage => ?_).mpr (by rw [waking]; trivial)
    cases stage <;> rfl
  obtain ⟨kept, calm⟩ := moves.keeps_queue soundWoken quiet (MsgStage.not_condAsleep_unlocked) rfl
  refine ⟨kept, fun other msgtyp msgsz sleeping => (asleep ..).mp (calm.asleep _ _ _ sleeping),
    fun msgtyp announced => ?_⟩
  obtain ⟨address, member, accepted, finished⟩ := calm.announced msgtyp announced
  exact ⟨address, member, accepted, fun sender busy => finished sender ((senders ..).mpr busy)⟩

theorem broadcast_keeps (broadcasting : system.stage task = .broadcasting address) :
    (system.broadcast task).Sound ∧ ¬ (system.broadcast task).Starved := by
  have before : ¬ (system.stage task).CondAsleep := by simp [MsgStage.CondAsleep, broadcasting]
  have woken : Parked MsgStage.CondAsleep (awaken MsgStage.rejoin system.condRecv system.stage) [] :=
    sound.parked.awaken (fun _ => MsgStage.not_condAsleep_rejoin) (append_nil _).symm
  have same : awaken MsgStage.rejoin system.condRecv system.stage task = system.stage task :=
    sound.parked.awaken_of_awake (List.Subset.refl _) before
  have parked : Parked MsgStage.CondAsleep (system.broadcast task).stage [] :=
    woken.move (by rwa [same]) (by simp [MsgStage.CondAsleep])
  refine ⟨⟨sound.chained, parked⟩, ?_⟩
  rintro ⟨other, msgtyp, msgsz, asleep, -⟩
  exact absurd ((parked.mem_iff other).mpr ⟨msgtyp, msgsz, asleep⟩) not_mem_nil

theorem Sound.condSleep (leaving : system.stage task = .condLeaving msgtyp msgsz) :
    (system.condSleep task msgtyp msgsz).Sound :=
  ⟨sound.chained, sound.parked.park (by simp [MsgStage.CondAsleep, leaving]) ⟨msgtyp, msgsz, rfl⟩⟩

end

theorem announced_condSleep (leaving : system.stage task = .condLeaving msgtyp msgsz) :
    (system.condSleep task msgtyp msgsz).Announced wanted ↔ system.Announced wanted := by
  have senders : ∀ sender address,
      (system.condSleep task msgtyp msgsz).stage sender = .broadcasting address ↔
        system.stage sender = .broadcasting address := by
    intro sender address
    by_cases same : sender = task
    · subst same
      simp [condSleep, goto, leaving]
    · simp [condSleep, goto, same]
  simp only [Announced, ne_eq, senders]
  rfl

theorem starved_condSleep_iff (fed : ¬ system.Starved) (leaving : system.stage task = .condLeaving msgtyp msgsz) :
    (system.condSleep task msgtyp msgsz).Starved ↔ system.Announced msgtyp := by
  constructor
  · rintro ⟨other, wanted, size, asleep, announced⟩
    rw [announced_condSleep leaving] at announced
    by_cases same : other = task
    · subst same
      simp only [condSleep, goto, update_self, MsgStage.condAsleep.injEq] at asleep
      rwa [asleep.1]
    · simp only [condSleep, goto, update_of_ne same] at asleep
      exact absurd ⟨other, wanted, size, asleep, announced⟩ fed
  · intro announced
    refine ⟨task, msgtyp, msgsz, ?_, (announced_condSleep leaving).mpr announced⟩
    simp [condSleep, goto]

/-- Every step keeps the list and the queue of sleepers in order, and makes a
receiver starve exactly if it puts one to sleep with a message announced. -/
theorem Sound.step (sound : system.Sound) (step : MsgSystemStep system op after) :
    after.Sound ∧ (¬ system.Starved → (after.Starved ↔ ¬ op.Timely system)) := by
  have calm : ∀ {after : MsgSystem Task} {op : MsgSystemOp Task}, op.Timely system →
      after.Sound ∧ Calm system after →
      after.Sound ∧ (¬ system.Starved → (after.Starved ↔ ¬ op.Timely system)) :=
    fun timely kept => ⟨kept.1, fun fed => iff_of_false (kept.2.not_starved fed) (not_not_intro timely)⟩
  cases step with
  | call outside =>
    exact calm trivial (Moves.keeps_queue ⟨rfl, rfl⟩ sound (by rw [outside]; trivial)
      (by simp [MsgStage.CondAsleep]) rfl)
  | lock locking => exact calm trivial (lock_keeps sound locking)
  | sleepOnLock leaving =>
    exact calm trivial (Moves.keeps_queue ⟨rfl, rfl⟩ sound (by rw [leaving]; trivial)
      (by simp [MsgStage.CondAsleep]) rfl)
  | msgsnd working fresh => exact calm trivial (msgsnd_keeps sound working fresh)
  | broadcast broadcasting =>
    obtain ⟨kept, quiet⟩ := broadcast_keeps sound broadcasting
    exact ⟨kept, fun _ => iff_of_false quiet (not_not_intro trivial)⟩
  | msgrcv working done => exact calm trivial (received_keeps sound working done)
  | unlock unlocking => exact calm trivial (unlock_keeps sound unlocking)
  | wakeUp waking => exact calm trivial (wakeUp_keeps sound waking)
  | condSleep leaving =>
    refine ⟨sound.condSleep leaving, fun fed => ?_⟩
    rw [starved_condSleep_iff fed leaving]
    simp only [MsgSystemOp.Timely, leaving, MsgStage.condLeaving.injEq]
    constructor
    · intro announced timely
      exact timely _ _ ⟨rfl, rfl⟩ announced
    · intro late
      by_contra quiet
      refine late fun _ _ same => ?_
      rw [← same.1]
      exact quiet

/-- Only the owner of the mutex works on the queue, and it has locked it once. -/
structure Exclusive (system : MsgSystem Task) : Prop where
  owner : ∀ task, (system.stage task).Owning ↔ system.mutex.owner = some task
  once : ∀ task, system.mutex.owner = some task → system.mutex.recurseCount = 1

omit [DecidableEq Task] in
theorem exclusive_initial (priority : Task → Int) : (initial priority entries).Exclusive :=
  ⟨fun _ => iff_of_false id nofun, nofun⟩

section

variable (exclusive : system.Exclusive)
include exclusive

theorem Exclusive.move (stage : after.stage = update system.stage task next)
    (same : next.Owning ↔ (system.stage task).Owning) (owner : after.mutex.owner = system.mutex.owner)
    (count : after.mutex.recurseCount = system.mutex.recurseCount) : after.Exclusive := by
  constructor
  · intro other
    rw [stage, owner, ← exclusive.owner other]
    by_cases here : other = task
    · subst here
      rw [update_self]
      exact same
    · rw [update_of_ne here]
  · intro other
    rw [owner, count]
    exact exclusive.once other

theorem Exclusive.lock (locking : system.stage task = .locking call) : (system.lock task call).Exclusive := by
  have notOwner : system.mutex.owner ≠ some task := by
    rw [ne_eq, ← exclusive.owner, locking]
    exact id
  cases found : system.mutex.owner with
  | none =>
    have locked : system.mutex.lock task = _ := Mutex.lock_free found
    have nobody : ∀ other, ¬ (system.stage other).Owning := by simp [exclusive.owner, found]
    simp only [MsgSystem.lock, locked]
    refine ⟨fun other => ?_, fun _ _ => rfl⟩
    by_cases here : other = task
    · subst here
      simp [goto, MsgStage.locked, MsgStage.Owning]
    · simp [goto, here, nobody, Ne.symm here]
  | some owner =>
    have different : owner ≠ task := fun same => notOwner (same ▸ found)
    have locked := Mutex.lock_other found different
    simp only [MsgSystem.lock, locked]
    exact exclusive.move rfl (by simp [locking, MsgStage.locked, MsgStage.Owning]) rfl rfl

theorem Exclusive.unlock (unlocking : system.stage task = .unlocking retry) :
    (system.unlock task retry).Exclusive := by
  have isOwner : system.mutex.owner = some task := by
    rw [← exclusive.owner, unlocking]
    trivial
  have unlocked := Mutex.unlock_last isOwner (exclusive.once task isOwner)
  simp only [MsgSystem.unlock, unlocked]
  refine ⟨fun other => ?_, nofun⟩
  by_cases here : other = task
  · subst here
    simp [goto, MsgStage.released, MsgStage.Owning]
  · simp [goto, here, exclusive.owner, isOwner, Ne.symm here]

theorem Exclusive.awaken (same : ∀ stage, (woken stage).Owning ↔ stage.Owning) (tasks wait condRecv : List Task) :
    { system with
      mutex := { system.mutex with wait }
      condRecv
      stage := Data.awaken woken tasks system.stage }.Exclusive := by
  refine ⟨fun other => ?_, exclusive.once⟩
  rw [← exclusive.owner]
  exact awaken_iff same

theorem Exclusive.broadcast (sound : system.Sound) (broadcasting : system.stage task = .broadcasting address) :
    (system.broadcast task).Exclusive := by
  have awake : Data.awaken MsgStage.rejoin system.condRecv system.stage task = .broadcasting address := by
    rw [sound.parked.awaken_of_awake (List.Subset.refl _) (by simp [MsgStage.CondAsleep, broadcasting]),
      broadcasting]
  have same : ∀ stage : MsgStage, stage.rejoin.Owning ↔ stage.Owning := fun stage => by cases stage <;> rfl
  have woken := exclusive.awaken same system.condRecv system.mutex.wait []
  exact woken.move rfl (by simp [awake, MsgStage.Owning]) rfl rfl

theorem Exclusive.wakeUp (waking : system.stage task = .waking retry) : (system.wakeUp task retry).Exclusive := by
  have same : ∀ stage : MsgStage, stage.relock.Owning ↔ stage.Owning := fun stage => by cases stage <;> rfl
  have awake : ¬ (Data.awaken MsgStage.relock (system.mutex.wait.take 1) system.stage task).Owning := by
    rw [awaken_iff same, waking]
    exact id
  have woken := exclusive.awaken same (system.mutex.wait.take 1) (system.mutex.wait.drop 1) system.condRecv
  refine woken.move rfl (iff_of_false ?_ awake) rfl rfl
  cases retry <;> exact id

theorem Exclusive.step (sound : system.Sound) (step : MsgSystemStep system op after) : after.Exclusive := by
  cases step with
  | call outside => exact exclusive.move rfl (by simp [outside, MsgStage.Owning]) rfl rfl
  | lock locking => exact exclusive.lock locking
  | sleepOnLock leaving => exact exclusive.move rfl (by simp [leaving, MsgStage.Owning]) rfl rfl
  | msgsnd working fresh =>
    rename_i memory
    refine exclusive.move rfl (iff_of_true ?_ (by rw [working]; trivial)) rfl rfl
    cases memory <;> trivial
  | broadcast broadcasting => exact exclusive.broadcast sound broadcasting
  | msgrcv working => exact exclusive.move rfl (by simp [working, MsgStage.Owning]) rfl rfl
  | unlock unlocking => exact exclusive.unlock unlocking
  | wakeUp waking => exact exclusive.wakeUp waking
  | condSleep leaving => exact exclusive.move rfl (by simp [leaving, MsgStage.Owning]) rfl rfl

end

structure Safe (system : MsgSystem Task) : Prop where
  sound : system.Sound
  exclusive : system.Exclusive

theorem safe_run {priority : Task → Int} (run : Run MsgSystemStep (.initial priority entries) trace system) :
    system.Safe :=
  run.invariant ⟨sound_initial priority, exclusive_initial priority⟩
    fun _ _ _ safe step => ⟨(safe.sound.step step).1, safe.exclusive.step safe.sound step⟩

end MsgSystem

section

variable [DecidableEq Task] {system : MsgSystem Task} {priority : Task → Int} {entries : Nat → MsgEntry}
  {trace : List (MsgSystemOp Task)}

/-- In every run the task at work on the queue is the owner of the mutex, so there is one at
most. -/
theorem msg_run_exclusive (run : Run MsgSystemStep (.initial priority entries) trace system) (task : Task) :
    (system.stage task).Owning ↔ system.mutex.owner = some task :=
  (MsgSystem.safe_run run).exclusive.owner task

/-- As long as no receiver falls asleep in `cond_wait` with a message announced that it
accepts, none sleeps on a matching message; and a further step makes one do so exactly if
it puts a receiver to sleep like that. -/
theorem timely_run_never_starves (run : Run (fun before op after => MsgSystemStep before op after ∧ op.Timely before)
      (.initial priority entries) trace system) :
    ¬ system.Starved ∧
      ∀ op after, MsgSystemStep system op after → (after.Starved ↔ ¬ op.Timely system) := by
  have fed : ¬ system.Starved := by
    induction run with
    | nil =>
      rintro ⟨task, msgtyp, msgsz, asleep, -⟩
      cases asleep
    | snoc earlier last ih =>
      have sound := (MsgSystem.safe_run (earlier.mono fun _ _ _ step => step.1)).sound
      exact fun starved => (((sound.step last.1).2 ih).mp starved) last.2
  have sound := (MsgSystem.safe_run (run.mono fun _ _ _ step => step.1)).sound
  exact ⟨fed, fun op after step => (sound.step step).2 fed⟩

end

def idleSystem : MsgSystem (Fin 2) := .initial (fun _ => 0) fun _ => ⟨0, Block.zero, 0, none⟩

def receiverWorking : MsgSystem (Fin 2) := (idleSystem.goto 0 (.locking (.msgrcv 0 4))).lock 0 (.msgrcv 0 4)

theorem fits_seven : (MsgCall.msgsnd 1 [7]).Fits := show 1 ≤ 1024 by decide

def senderRefused : MsgSystem (Fin 2) :=
  (receiverWorking.goto 1 (.locking (.msgsnd 1 [7]))).lock 1 (.msgsnd 1 [7])

theorem msg_run_exclusive_contended : (senderRefused.stage 0).Owning ∧ ¬ (senderRefused.stage 1).Owning := by
  have called : MsgSystemStep idleSystem (.call 0 (.msgrcv 0 4)) _ := .call rfl trivial
  have run : Run MsgSystemStep idleSystem _ senderRefused :=
    .snoc (.snoc (.snoc (.snoc .nil called) (.lock rfl)) (.call rfl fits_seven)) (.lock rfl)
  exact ⟨(msg_run_exclusive run 0).mpr rfl, fun owning => absurd ((msg_run_exclusive run 1).mp owning) (by decide)⟩

def receiverLeaving : MsgSystem (Fin 2) :=
  ((receiverWorking.received 0 0 4 none idleSystem.queue).unlock 0 (some (0, 4))).wakeUp 0 (some (0, 4))

def receiverOps : List (MsgSystemOp (Fin 2)) := [.call 0 (.msgrcv 0 4), .lock 0, .msgrcv 0, .unlock 0, .wakeUp 0]

theorem receiverLeaving_run :
    Run (fun before op after => MsgSystemStep before op after ∧ op.Timely before) idleSystem receiverOps
      receiverLeaving := by
  have nothing : idleSystem.queue.sysMsgrcv 1 0 4 = some (none, idleSystem.queue) := rfl
  exact .snoc (.snoc (.snoc (.snoc (.snoc .nil ⟨.call rfl trivial, trivial⟩) ⟨.lock rfl, trivial⟩)
    ⟨.msgrcv rfl nothing, trivial⟩) ⟨.unlock rfl, trivial⟩) ⟨.wakeUp rfl, trivial⟩

/-- The second task sends a message, broadcasts and unlocks. -/
def send (system : MsgSystem (Fin 2)) : MsgSystem (Fin 2) :=
  (((((system.goto 1 (.locking (.msgsnd 1 [7]))).lock 1 (.msgsnd 1 [7])).msgsnd 1 1 [7]
    (some (0, Block.zero))).broadcast 1).unlock 1 none).wakeUp 1 none

def senderOps : List (MsgSystemOp (Fin 2)) :=
  [.call 1 (.msgsnd 1 [7]), .lock 1, .msgsnd 1 (some (0, Block.zero)), .broadcast 1, .unlock 1, .wakeUp 1]

/-- The receiver falls asleep first, and the broadcast wakes it up. -/
theorem timely_run_never_starves_sent :
    (send (receiverLeaving.condSleep 0 0 4)).Announced 0 ∧ ¬ (send (receiverLeaving.condSleep 0 0 4)).Starved := by
  have quiet : ∀ msgtyp msgsz, receiverLeaving.stage 0 = .condLeaving msgtyp msgsz →
      ¬ receiverLeaving.Announced msgtyp := by
    rintro msgtyp msgsz - ⟨address, member, -⟩
    have chained : receiverLeaving.queue.Chained [] := MsgQueue.chained_create _
    exact absurd (chained.queued_iff.mp member) not_mem_nil
  have asleep := receiverLeaving_run.snoc ⟨.condSleep rfl, quiet⟩
  have run := asleep.trans (show Run _ _ senderOps (send (receiverLeaving.condSleep 0 0 4)) from
    .snoc (.snoc (.snoc (.snoc (.snoc (.snoc .nil ⟨.call rfl fits_seven, trivial⟩) ⟨.lock rfl, trivial⟩)
      ⟨.msgsnd rfl fun _ _ _ => rfl, trivial⟩) ⟨.broadcast rfl, trivial⟩) ⟨.unlock rfl, trivial⟩)
      ⟨.wakeUp rfl, trivial⟩)
  exact ⟨⟨0, ⟨[0], ⟨rfl, rfl⟩, mem_singleton_self 0⟩, rfl, by decide⟩, (timely_run_never_starves run).1⟩

/-- The sender appends and broadcasts between `mutex_unlock` and `sleep_on` of
`cond_wait`: the receiver then sleeps with its message in the queue. -/
theorem broadcast_before_sleep_starves :
    Run MsgSystemStep idleSystem (receiverOps ++ senderOps ++ [.condSleep 0])
        ((send receiverLeaving).condSleep 0 0 4) ∧ ((send receiverLeaving).condSleep 0 0 4).Starved := by
  have sending : Run MsgSystemStep receiverLeaving senderOps (send receiverLeaving) :=
    .snoc (.snoc (.snoc (.snoc (.snoc (.snoc .nil (.call rfl fits_seven)) (.lock rfl))
      (.msgsnd rfl fun _ _ _ => rfl)) (.broadcast rfl)) (.unlock rfl)) (.wakeUp rfl)
  have run := (receiverLeaving_run.mono fun _ _ _ step => step.1).trans sending
  refine ⟨run.snoc (.condSleep rfl), 0, 0, 4, rfl, 0, ⟨[0], ⟨rfl, rfl⟩, mem_singleton_self 0⟩, rfl, ?_⟩
  decide

end Rucix.Ipc
